import VirtioDisk.ReportedWrites

/-!
The two ways of disk/raw.c to an image, over sequences of requests: the calls of the
host on the file, and the copies from and to a private mapping of it. Both do to
memory and content what `filled` and `stored` say, as far as the image goes.
-/

namespace VirtioDisk.BackendAgreement

open BlkDevice ByteStore DescriptorChain RawImage ReadWrite ReportedWrites

/-- A request as the operations get it: `status` is the entry behind its data in the
array. `prepare` is what the guest does to its memory beforehand. -/
structure Request where
  direction : Direction
  sector : UInt64
  data : List Iovec
  status : Iovec
  rest : List Iovec
  prepare : (Nat → UInt8) → Nat → UInt8

/-- What is returned, and the memory with the data that was read. -/
structure Reply where
  total : Int
  memory : Nat → UInt8

section Backend
variable {Disk : Type}

def submit (op : Transfer Disk) (disk : Disk) (memory : Nat → UInt8) (req : Request) :
    Transferred Disk :=
  op disk (req.prepare memory) req.sector (req.data ++ req.status :: req.rest) req.data.length

/-- The replies up to the first request that does not come back. -/
def replies (ops : DiskImageOperations Disk) : Disk → (Nat → UInt8) → List Request → List Reply
  | _, _, [] => []
  | disk, memory, req :: later =>
      match ops.operation req.direction with
      | none => []
      | some op =>
          let after := submit op disk memory req
          match after.total with
          | none => []
          | some total => ⟨total, after.bytes⟩ :: replies ops after.disk after.bytes later

end Backend

/-! What a request is for. -/

def Request.offset (req : Request) : Nat := req.sector.toNat * 512

def Request.target (req : Request) : Option HostPtr → Option Nat :=
  match req.direction with
  | .fromDevice => storeTarget
  | .toDevice => loadTarget

/-- The byte range lies inside an image of `size` bytes. -/
structure Request.Inside (size : Nat) (req : Request) : Prop where
  mapped : Mapped req.target req.data
  fits : req.offset + iovBytes req.data ≤ size
  status : 0 < req.status.iovLen

def Request.filled (req : Request) (content memory : Nat → UInt8) : Nat → UInt8 :=
  match req.direction with
  | .fromDevice =>
      scatter memory (segments storeTarget req.data)
        (readRange content req.offset (iovBytes req.data))
  | .toDevice => memory

def Request.stored (req : Request) (content memory : Nat → UInt8) : Nat → UInt8 :=
  match req.direction with
  | .fromDevice => content
  | .toDevice => writeRange content req.offset (gather memory (segments loadTarget req.data))

def SameUpTo (size : Nat) (first second : Nat → UInt8) : Prop :=
  ∀ i, i < size → first i = second i

section Content
variable {size : Nat} {first second : Nat → UInt8} {req : Request}

theorem filled_congr (same : SameUpTo size first second) (inside : req.Inside size)
    (memory : Nat → UInt8) : req.filled first memory = req.filled second memory := by
  have fits := inside.fits
  have data : readRange first req.offset (iovBytes req.data) =
      readRange second req.offset (iovBytes req.data) := by
    apply List.ext_getElem (by simp)
    intro i here _
    rw [length_readRange] at here
    rw [getElem_readRange, getElem_readRange]
    exact same _ (by omega)
  unfold Request.filled
  cases req.direction with
  | fromDevice => simp only [data]
  | toDevice => rfl

theorem stored_congr (same : SameUpTo size first second) (memory : Nat → UInt8) :
    SameUpTo size (req.stored first memory) (req.stored second memory) := by
  intro i below
  unfold Request.stored
  cases req.direction with
  | fromDevice => exact same i below
  | toDevice => exact writeRange_congr _ _ (same i below)

end Content

/-! Each operation does it. -/

/-- The request came back, with all it asks for done. -/
structure Performed {Disk : Type} (content : Disk → Nat → UInt8) (req : Request) (disk : Disk)
    (memory : Nat → UInt8) (total : Int) (after : Transferred Disk) : Prop where
  total : total = iovBytes req.data
  filled : after.bytes = req.filled (content disk) (req.prepare memory)
  stored : content after.disk = req.stored (content disk) (req.prepare memory)

section Sync
variable {disk : OpenFile} {memory : Nat → UInt8} {req : Request}

theorem sync_performs {op : Transfer OpenFile} {total : Int} (sound : disk.file.size ≤ fileMax)
    (host : MovesOn disk.answers) (inside : req.Inside disk.file.size)
    (operation : rawImageRegularOps.operation req.direction = some op)
    (returned : (submit op disk memory req).total = some total) :
    Performed (fun disk => disk.file.bytes) req disk memory total (submit op disk memory req) ∧
      (submit op disk memory req).disk.file.size = disk.file.size ∧
      MovesOn (submit op disk memory req).disk.answers := by
  have fits : req.sector.toNat * 512 ≤ fileMax :=
    Nat.le_trans (Nat.le_add_right _ _) (Nat.le_trans inside.fits sound)
  have mapped := inside.mapped
  rw [Request.target] at mapped
  cases direction : req.direction with
  | fromDevice =>
      rw [direction] at operation mapped
      cases operation
      obtain ⟨moved, onward, kept, filled⟩ := preadv_in_full_spec inside.status host mapped
        inside.fits (by rw [submit, rawImageReadSync, sector_offset _ fits]; rfl) returned
      refine ⟨⟨moved, ?_, ?_⟩, by rw [kept], onward⟩
      · rw [filled, Request.filled, direction]
      · rw [Request.stored, direction, kept]
  | toDevice =>
      rw [direction] at operation mapped
      cases operation
      obtain ⟨moved, onward, kept, size, stored⟩ := pwritev_in_full_spec inside.status host mapped
        inside.fits sound (by rw [submit, rawImageWriteSync, sector_offset _ fits]; rfl) returned
      refine ⟨⟨moved, ?_, ?_⟩, size, onward⟩
      · rw [kept, Request.filled, direction]
      · rw [stored, Request.stored, direction]

end Sync

section Mmap
variable {req : Request} {size : Nat}

theorem mmap_performs {op : Transfer Mapping} (priv : Mapping) (memory : Nat → UInt8)
    (sound : size ≤ fileMax) (inside : req.Inside size)
    (operation : roOps.operation req.direction = some op) :
    (submit op priv memory req).total = some (iovBytes req.data : Int) ∧
      Performed Mapping.bytes req priv memory (iovBytes req.data) (submit op priv memory req) := by
  have fits : req.sector.toNat * 512 + iovBytes req.data ≤ fileMax :=
    Nat.le_trans inside.fits sound
  have start := sector_bytes req.sector (Nat.le_trans (Nat.le_add_right _ _) fits)
  have mapped := inside.mapped
  rw [Request.target] at mapped
  cases direction : req.direction with
  | fromDevice =>
      rw [direction] at operation mapped
      cases operation
      obtain ⟨touched, copies⟩ := copy_out_spec (req.status :: req.rest) priv (req.prepare memory)
        (req.sector <<< sectorShift) 0 mapped (by rw [start]; exact fits)
      have result : submit rawImageReadMmap priv memory req =
          ⟨some (0 + iovBytes req.data), { priv with touched := touched },
            scatter (req.prepare memory) (segments storeTarget req.data)
              (readRange priv.bytes (req.sector.toNat * 512) (iovBytes req.data))⟩ := by
        rw [← start, ← copies]
        rfl
      rw [result]
      refine ⟨by rw [Int.zero_add], rfl, ?_, ?_⟩
      · rw [Request.filled, direction]
        rfl
      · rw [Request.stored, direction]
  | toDevice =>
      rw [direction] at operation mapped
      cases operation
      obtain ⟨touched, copies⟩ := copy_in_spec (req.status :: req.rest) priv (req.prepare memory)
        (req.sector <<< sectorShift) 0 mapped (by rw [start]; exact fits)
      have result : submit rawImageWriteMmap priv memory req =
          ⟨some (0 + iovBytes req.data), { priv with
            bytes := writeRange priv.bytes (req.sector.toNat * 512)
              (gather (req.prepare memory) (segments loadTarget req.data))
            touched := touched }, req.prepare memory⟩ := by
        rw [← start, ← copies]
        rfl
      rw [result]
      refine ⟨by rw [Int.zero_add], rfl, ?_, ?_⟩
      · rw [Request.filled, direction]
      · rw [Request.stored, direction]
        rfl

end Mmap

/-! Over a sequence both stay the same. -/

theorem operation_given {Disk : Type} (ops : DiskImageOperations Disk) {read write : Transfer Disk}
    (reads : ops.read = some read) (writes : ops.write = some write) (direction : Direction) :
    ∃ op, ops.operation direction = some op := by
  cases direction with
  | fromDevice => exact ⟨read, reads⟩
  | toDevice => exact ⟨write, writes⟩

theorem replies_cons {Disk : Type} {ops : DiskImageOperations Disk} {op : Transfer Disk}
    {disk : Disk} {memory : Nat → UInt8} {req : Request} {total : Int}
    (operation : ops.operation req.direction = some op)
    (returned : (submit op disk memory req).total = some total) (later : List Request) :
    replies ops disk memory (req :: later) =
      ⟨total, (submit op disk memory req).bytes⟩ ::
        replies ops (submit op disk memory req).disk (submit op disk memory req).bytes later := by
  simp only [replies, operation, returned]

theorem replies_stop {Disk : Type} {ops : DiskImageOperations Disk} {op : Transfer Disk}
    {disk : Disk} {memory : Nat → UInt8} {req : Request}
    (operation : ops.operation req.direction = some op)
    (hangs : (submit op disk memory req).total = none) (later : List Request) :
    replies ops disk memory (req :: later) = [] := by
  simp only [replies, operation, hangs]

theorem mmap_answers {requests : List Request} {size : Nat} (priv : Mapping)
    (memory : Nat → UInt8) (sound : size ≤ fileMax) (inside : ∀ req ∈ requests, req.Inside size) :
    (replies roOps priv memory requests).length = requests.length := by
  induction requests generalizing priv memory with
  | nil => rfl
  | cons req later ih =>
      obtain ⟨op, operation⟩ := operation_given roOps rfl rfl req.direction
      obtain ⟨returned, _⟩ := mmap_performs priv memory sound (inside req (by simp)) operation
      rw [replies_cons operation returned, List.length_cons, List.length_cons,
        ih _ _ fun other member => inside other (List.mem_cons_of_mem _ member)]

/-- The mapping answers every request, and the calls of the host give the same replies
for as long as they come back. -/
theorem raw_backends_agree {disk : OpenFile} {priv : Mapping} {requests : List Request}
    (memory : Nat → UInt8) (sound : disk.file.size ≤ fileMax)
    (copy : SameUpTo disk.file.size disk.file.bytes priv.bytes) (host : MovesOn disk.answers)
    (inside : ∀ req ∈ requests, req.Inside disk.file.size) :
    (replies roOps priv memory requests).length = requests.length ∧
      replies rawImageRegularOps disk memory requests <+: replies roOps priv memory requests := by
  refine ⟨mmap_answers priv memory sound inside, ?_⟩
  induction requests generalizing disk priv memory with
  | nil => exact List.prefix_refl _
  | cons req later ih =>
      have here := inside req (by simp)
      obtain ⟨copies, mapped⟩ := operation_given roOps rfl rfl req.direction
      obtain ⟨calls, synchronous⟩ := operation_given rawImageRegularOps rfl rfl req.direction
      cases returned : (submit calls disk memory req).total with
      | none =>
          rw [replies_stop synchronous returned]
          exact List.nil_prefix
      | some total =>
          obtain ⟨answers, copied⟩ := mmap_performs priv memory sound here mapped
          obtain ⟨called, size, onward⟩ := sync_performs sound host here synchronous returned
          have reply : (submit copies priv memory req).bytes =
              (submit calls disk memory req).bytes := by
            rw [copied.filled, called.filled, filled_congr copy here]
          have content : SameUpTo disk.file.size (submit calls disk memory req).disk.file.bytes
              (submit copies priv memory req).disk.bytes := by
            rw [copied.stored, called.stored]
            exact stored_congr copy (req.prepare memory)
          rw [replies_cons synchronous returned, replies_cons mapped answers, reply, called.total]
          apply List.cons_prefix_cons.mpr
          refine ⟨rfl, ih _ (by rw [size]; exact sound) (by rw [size]; exact content) onward ?_⟩
          intro other member
          rw [size]
          exact inside other (List.mem_cons_of_mem _ member)

/-! Two entries are written, the second in two calls, and read back as one. -/

def slowFile : OpenFile where
  file := ⟨fun i => UInt8.ofNat i, 1024, false⟩
  answers := [.moves 2, .again, .moves 1, .moves 3, .moves 9]
  touched := []

def writtenAndRead : List Request :=
  [{ direction := .toDevice
     sector := 1
     data := [⟨some ⟨0x100, false⟩, 2⟩, ⟨some ⟨0x200, false⟩, 3⟩]
     status := ⟨some ⟨0x300, true⟩, 1⟩
     rest := []
     prepare := fun _ address => UInt8.ofNat (address / 0x100) },
   { direction := .fromDevice
     sector := 1
     data := [⟨some ⟨0x400, true⟩, 5⟩]
     status := ⟨some ⟨0x300, true⟩, 1⟩
     rest := []
     prepare := id }]

theorem slow_file_agrees :
    (replies rawImageRegularOps slowFile (fun _ => 0) writtenAndRead).length = 2 ∧
      (replies roOps ⟨slowFile.file.bytes, 1024, []⟩ (fun _ => 0) writtenAndRead).length = 2 ∧
      replies rawImageRegularOps slowFile (fun _ => 0) writtenAndRead <+:
        replies roOps ⟨slowFile.file.bytes, 1024, []⟩ (fun _ => 0) writtenAndRead := by
  refine ⟨by decide +kernel, raw_backends_agree (fun _ => 0) (by decide) (fun _ _ => rfl) ?_ ?_⟩
  · simp [MovesOn, slowFile]
  · intro req member
    simp only [writtenAndRead, List.mem_cons, List.not_mem_nil, or_false] at member
    rcases member with rfl | rfl
    · exact ⟨by simp [Mapped, Request.target, loadTarget], by decide, by decide⟩
    · exact ⟨by simp [Mapped, Request.target, storeTarget], by decide, by decide⟩

end VirtioDisk.BackendAgreement
