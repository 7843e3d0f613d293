import VirtioDisk.QcowRead

/-!
Which bytes of the image an IN or OUT request touches, for the backends that
`disk_image__open` installs. A file stops a read at its end and a block device
also a write; a write to a regular file, a copy from or to the mapping and the
last cluster of a qcow image go beyond the capacity.
-/

namespace VirtioDisk.CapacityConfinement

open BlkDevice ByteStore DescriptorChain QcowRead RawImage ReadWrite

section Files
variable {target : Option HostPtr → Option Nat}

/-- How far the host can follow the entries that are left. -/
def reach (target : Option HostPtr → Option Nat) (iov : List Iovec) (iovcnt : Int) : Nat :=
  total (segments target (iov.take iovcnt.toNat))

theorem reach_step {entry : Iovec} {rest : List Iovec} {iovcnt : Int} {nr : Nat}
    (passed : entry.iovLen ≤ nr) (inside : nr ≤ reach target (entry :: rest) iovcnt) :
    entry.iovLen + reach target rest (iovcnt - 1) = reach target (entry :: rest) iovcnt := by
  unfold reach at inside ⊢
  cases count : iovcnt.toNat with
  | zero =>
      have none : (iovcnt - 1).toNat = 0 := by omega
      simp only [count, List.take_zero, segments, total] at inside
      simp only [none, List.take_zero, segments, total]
      omega
  | succ more =>
      have less : (iovcnt - 1).toNat = more := by omega
      simp only [count, List.take_succ_cons, segments] at inside
      simp only [less, List.take_succ_cons, segments]
      cases base : target entry.iovBase with
      | some base => rfl
      | none =>
          by_cases empty : entry.iovLen = 0
          · simp [empty]
          · simp only [base, empty, if_false, total] at inside
            omega

theorem shift_reach {nr : Nat} {iov : List Iovec} {place next : Place} (same : place.iov = iov)
    (inside : nr ≤ reach target place.iov place.iovcnt)
    (shifted : shiftIovec nr iov place = some next) :
    place.offset ≤ next.offset ∧
      next.offset + reach target next.iov next.iovcnt ≤
        place.offset + reach target place.iov place.iovcnt := by
  induction iov generalizing nr place with
  | nil => simp [shiftIovec] at shifted
  | cons entry rest ih =>
      unfold shiftIovec at shifted
      split at shifted
      · next fits =>
          rw [same] at inside ⊢
          have step := reach_step fits inside
          have behind := ih rfl (by simp only; omega) shifted
          simp only at behind
          omega
      · cases shifted
        exact ⟨Int.le_refl _, Int.le_refl _⟩

/-- A range that a request may touch when it starts at `start`, reaches to `stop`
and the host stops at `limit`. -/
def Touchable (start stop limit : Nat) (range : Range) : Prop :=
  range.len = 0 ∨ (start ≤ range.base ∧ range.base + range.len ≤ min stop limit)

theorem in_full_touches (target : Option HostPtr → Option Nat) (holds : File → Prop)
    {call : HostCall} {stopped : Nat → Int} {start stop limit : Nat}
    (bounded : ∀ file bytes iov offset most, holds file →
      holds (call file bytes iov offset most).file ∧
      (call file bytes iov offset most).nr ≤ total (segments target iov) ∧
      (call file bytes iov offset most).nr ≤ limit - offset)
    {answers : List HostAnswer} {place : Place} {file : File} {bytes : Nat → UInt8}
    {touched : List Range} (now : holds file) (behind : (start : Int) ≤ place.offset)
    (ahead : place.offset + reach target place.iov place.iovcnt ≤ stop)
    (before : ∀ range ∈ touched, Touchable start stop limit range) :
    ∀ range ∈ (inFull call stopped answers place file bytes touched).disk.touched,
      Touchable start stop limit range := by
  induction answers generalizing place file bytes touched with
  | nil =>
      unfold inFull
      split <;> exact before
  | cons answer rest ih =>
      unfold inFull
      split
      · exact before
      · cases answer with
        | again => exact ih now behind ahead before
        | fails => exact before
        | moves most =>
            simp only
            split
            · exact before
            · next forward =>
                rcases bounded file bytes (place.iov.take place.iovcnt.toNat)
                  place.offset.toNat most now with ⟨later, covered, limited⟩
                have grown : ∀ range ∈ touched ++ [⟨place.offset.toNat,
                    (call file bytes (place.iov.take place.iovcnt.toNat)
                      place.offset.toNat most).nr⟩], Touchable start stop limit range := by
                  intro range member
                  rcases List.mem_append.mp member with old | new
                  · exact before range old
                  · rw [List.mem_singleton.mp new]
                    unfold Touchable reach at *
                    simp only
                    omega
                split
                · exact grown
                · split
                  · exact grown
                  · next next shifted =>
                      rcases shift_reach rfl covered shifted with ⟨onward, inside⟩
                      exact ih later (Int.le_trans behind onward) (Int.le_trans inside ahead) grown

theorem segments_le (target : Option HostPtr → Option Nat) (iov : List Iovec) :
    total (segments target iov) ≤ iovBytes iov := by
  induction iov with
  | nil => exact Nat.le_refl 0
  | cons entry rest ih =>
      simp only [segments, iovBytes]
      split
      · simpa [total] using ih
      · split
        · omega
        · exact Nat.zero_le _

theorem in_full_unanswered {call : HostCall} {stopped : Nat → Int} {place : Place} {file : File}
    {bytes : Nat → UInt8} {touched : List Range} :
    (inFull call stopped [] place file bytes touched).disk.touched = touched := by
  unfold inFull
  split <;> rfl

-- The host refuses the first call.
theorem in_full_refused {call : HostCall} {stopped : Nat → Int} {answers : List HostAnswer}
    {place : Place} {file : File} {bytes : Nat → UInt8} {touched : List Range}
    (negative : place.offset < 0) :
    (inFull call stopped answers place file bytes touched).disk.touched = touched := by
  induction answers with
  | nil =>
      unfold inFull
      split <;> rfl
  | cons answer rest ih =>
      unfold inFull
      split
      · rfl
      · cases answer with
        | again => exact ih
        | fails => rfl
        | moves most => rfl

/-- What the two host calls have in common. -/
structure Limited (call : HostCall) (target : Option HostPtr → Option Nat) (limit : Nat)
    (holds : File → Prop) : Prop where
  moves : ∀ file bytes iov offset most, holds file → (call file bytes iov offset most).nr =
    min most (min (total (segments target iov)) (limit - offset))
  keeps : ∀ file bytes iov offset most, holds file → holds (call file bytes iov offset most).file

theorem preadv_limited (size : Nat) :
    Limited preadv storeTarget size (fun file => file.size = size) where
  moves := by
    intro file bytes iov offset most same
    subst same
    rfl
  keeps := fun _ _ _ _ _ same => same

/-- Where the host stops a transfer. -/
def fileLimit (file : File) : Direction → Nat
  | .fromDevice => file.size
  | .toDevice => if file.fixed then file.size else fileMax

theorem pwritev_limited (file : File) :
    Limited pwritev loadTarget (fileLimit file .toDevice)
      (fun now => now.fixed = file.fixed ∧ (file.fixed = true → now.size = file.size)) where
  moves := by
    rintro now bytes iov offset most ⟨fixed, size⟩
    cases kind : file.fixed with
    | false => simp [pwritev, fileLimit, fixed, kind]
    | true => simp [pwritev, fileLimit, fixed, kind, size kind]
  keeps := by
    rintro now bytes iov offset most ⟨fixed, size⟩
    refine ⟨fixed, fun kind => ?_⟩
    have same := size kind
    have device : now.fixed = true := fixed.trans kind
    simp only [pwritev, device, if_true]
    split
    · exact same
    · omega

variable {call : HostCall} {stopped : Nat → Int} {holds : File → Prop} {limit : Nat}
variable {disk : OpenFile} {bytes : Nat → UInt8} {data behind : List Iovec}

theorem start_touches (disk : OpenFile) (limited : Limited call target limit holds)
    (now : holds disk.file) (fresh : disk.touched = []) (offset : Nat) :
    ∀ range ∈ (startInFull call stopped disk bytes (data ++ behind) data.length
      offset).disk.touched,
      Touchable offset (offset + total (segments target data)) limit range := by
  simp only [startInFull, Int.not_ofNat_neg, if_false, Int.toNat_natCast, get_iov_size_append]
  refine in_full_touches target holds ?_ now (Int.le_refl _) ?_ ?_
  · intro file bytes iov offset most here
    rw [limited.moves file bytes iov offset most here]
    exact ⟨limited.keeps file bytes iov offset most here, by omega, by omega⟩
  · simp [reach]
  · simp [fresh]

theorem start_refused {offset : Int} (negative : offset < 0) (fresh : disk.touched = []) :
    (startInFull call stopped disk bytes (data ++ behind) data.length offset).disk.touched =
      [] := by
  simp only [startInFull, Int.not_ofNat_neg, if_false, Int.toNat_natCast, get_iov_size_append]
  rw [in_full_refused negative, fresh]

/-- A host that moves all it can at once touches the whole of that range. -/
theorem start_reaches (disk : OpenFile) (limited : Limited call target limit holds)
    (now : holds disk.file) (fresh : disk.touched = []) (offset : Nat)
    (some_ : 0 < total (segments target data))
    (host : disk.answers = [.moves (total (segments target data))]) (below : offset < limit) :
    (⟨offset, min (total (segments target data)) (limit - offset)⟩ : Range) ∈
      (startInFull call stopped disk bytes (data ++ behind) data.length
        offset).disk.touched := by
  have nr := limited.moves disk.file bytes data offset (total (segments target data)) now
  have exact_ : (call disk.file bytes data offset (total (segments target data))).nr =
      min (total (segments target data)) (limit - offset) := by omega
  have positive : min (total (segments target data)) (limit - offset) ≠ 0 := by omega
  have count : iovBytes data ≠ 0 := by
    have covered := segments_le target data
    omega
  have forward : ¬ ((offset : Int) < 0) := by omega
  simp only [startInFull, Int.not_ofNat_neg, if_false, Int.toNat_natCast, get_iov_size_append,
    host, fresh]
  unfold inFull
  simp only [count, if_false, forward, Int.toNat_natCast, List.take_left', exact_, positive,
    List.nil_append]
  split
  · simp
  · rw [in_full_unanswered]
    simp

end Files

section Mappings

/-- The copies of a request, up to the first bad pointer, end inside the mapping. -/
def CopiesInside (target : Option HostPtr → Option Nat) (size : Nat) :
    UInt64 → List Iovec → Prop
  | _, [] => True
  | offset, entry :: rest =>
      if entry.iovLen = 0 then CopiesInside target size offset rest
      else target entry.iovBase = none ∨
        (offset.toNat + entry.iovLen ≤ size ∧
          CopiesInside target size (offset + UInt64.ofNat entry.iovLen) rest)

/-- What the two copies have in common. -/
structure Copies (memcpy : Memcpy) (target : Option HostPtr → Option Nat) : Prop where
  refuses : ∀ priv bytes offset entry, target entry.iovBase = none →
    memcpy priv bytes offset entry = none
  touches : ∀ priv bytes offset entry base, target entry.iovBase = some base →
    ∃ priv' bytes', memcpy priv bytes offset entry = some (priv', bytes') ∧
      priv'.touched = priv.touched ++ [⟨offset, entry.iovLen⟩]

theorem memcpy_out_copies : Copies memcpyOut storeTarget where
  refuses := by
    intro priv bytes offset entry bad
    simp [memcpyOut, bad]
  touches := by
    intro priv bytes offset entry base good
    exact ⟨_, _, by simp only [memcpyOut, good]; rfl, rfl⟩

theorem memcpy_in_copies : Copies memcpyIn loadTarget where
  refuses := by
    intro priv bytes offset entry bad
    simp [memcpyIn, bad]
  touches := by
    intro priv bytes offset entry base good
    exact ⟨_, _, by simp only [memcpyIn, good]; rfl, rfl⟩

theorem copy_touches_iff {memcpy : Memcpy} {target : Option HostPtr → Option Nat}
    (copies : Copies memcpy target) (size : Nat) (data behind : List Iovec) (priv : Mapping)
    (bytes : Nat → UInt8) (offset : UInt64) (sum : Int) :
    (∀ range ∈ (copyEach memcpy data.length (data ++ behind) priv bytes offset sum).disk.touched,
      Inside size range) ↔
    (∀ range ∈ priv.touched, Inside size range) ∧ CopiesInside target size offset data := by
  induction data generalizing priv bytes offset sum with
  | nil => simp [copyEach, CopiesInside]
  | cons entry rest ih =>
      simp only [List.length_cons, List.cons_append, copyEach, CopiesInside]
      by_cases empty : entry.iovLen = 0
      · have still : offset + UInt64.ofNat 0 = offset := UInt64.add_zero offset
        simp only [empty, if_true, still]
        exact ih priv bytes offset _
      · simp only [empty, if_false]
        cases reached : target entry.iovBase with
        | none => simp [copies.refuses priv bytes offset.toNat entry reached]
        | some base =>
            rcases copies.touches priv bytes offset.toNat entry base reached with
              ⟨priv', bytes', copied, touched⟩
            simp only [copied]
            rw [ih, touched]
            simp only [List.forall_mem_append, List.forall_mem_singleton, reduceCtorEq, false_or]
            constructor
            · rintro ⟨⟨old, new⟩, later⟩
              exact ⟨old, new.resolve_left empty, later⟩
            · rintro ⟨old, new, later⟩
              exact ⟨⟨old, Or.inr new⟩, later⟩

end Mappings

/-- The images that `disk_image__open` installs. A regular file and a block device
share their operations; `capacity` is `disk->size`, the file may have grown since.
The third is what a read-only image falls back to when it cannot be mapped. -/
inductive Image where
  | regular (disk : OpenFile) (capacity : Nat)
  | mapped (priv : Mapping)
  | fallback (disk : OpenFile) (capacity : Nat)
  | qcow (q : Qcow)

def Image.size : Image → Nat
  | .regular _ capacity => capacity
  | .mapped priv => priv.size
  | .fallback _ capacity => capacity
  | .qcow q => q.size.toNat

def touchedBy {Disk : Type} (ops : DiskImageOperations Disk) (direction : Direction)
    (touched : Disk → List Range) (disk : Disk) (bytes : Nat → UInt8) (sector : UInt64)
    (iov : List Iovec) (iovcount : Int) : List Range :=
  match ops.operation direction with
  | none => []
  | some op => touched (op disk bytes sector iov iovcount).disk

/-- The ranges one request touches. The host answers as in `answers`; `fuel` bounds
the loop of a qcow read. -/
def Image.touched (image : Image) (answers : List HostAnswer) (fuel : Nat)
    (direction : Direction) (bytes : Nat → UInt8) (sector : UInt64) (iov : List Iovec)
    (iovcount : Int) : List Range :=
  match image with
  | .regular disk _ =>
      touchedBy rawImageRegularOps direction OpenFile.touched
        { disk with answers := answers, touched := [] } bytes sector iov iovcount
  | .mapped priv =>
      touchedBy roOps direction Mapping.touched { priv with touched := [] } bytes sector iov
        iovcount
  | .fallback disk _ =>
      touchedBy roOpsNowrite direction OpenFile.touched
        { disk with answers := answers, touched := [] } bytes sector iov iovcount
  | .qcow q =>
      touchedBy (qcowDiskReadonlyOps fuel) direction Qcow.touched { q with touched := [] } bytes
        sector iov iovcount

/-- A request for the segments `data`, which lie in front of `behind` in their
array, touches no byte outside the image, whatever the host does. -/
def Confines (image : Image) (direction : Direction) (bytes : Nat → UInt8) (sector : UInt64)
    (data behind : List Iovec) : Prop :=
  ∀ answers fuel, ∀ range ∈ image.touched answers fuel direction bytes sector (data ++ behind)
    data.length, Inside image.size range

def targetOf : Direction → Option HostPtr → Option Nat
  | .fromDevice => storeTarget
  | .toDevice => loadTarget

/-- What the host lets a transfer reach of a file is nothing or ends inside the capacity. -/
def FileInside (file : File) (capacity : Nat) (direction : Direction) (sector : UInt64)
    (data : List Iovec) : Prop :=
  let start := (sector <<< sectorShift).toNat
  let stop := min (start + total (segments (targetOf direction) data)) (fileLimit file direction)
  fileMax < start ∨ stop ≤ start ∨ stop ≤ capacity

/-- The condition under which a request stays inside the image. -/
def WithinCapacity (direction : Direction) (sector : UInt64) (data : List Iovec) :
    Image → Prop
  | .regular disk capacity => FileInside disk.file capacity direction sector data
  | .mapped priv => CopiesInside (targetOf direction) priv.size (sector <<< sectorShift) data
  | .fallback disk capacity =>
      direction = .toDevice ∨ FileInside disk.file capacity .fromDevice sector data
  | .qcow q => direction = .toDevice ∨ EachInside q sector data

section Confinement
variable {bytes : Nat → UInt8} {sector : UInt64} {data behind : List Iovec}

theorem transfer_inside_iff {call : HostCall} {stopped : Nat → Int} {holds : File → Prop}
    {target : Option HostPtr → Option Nat} {limit capacity : Nat} {disk : OpenFile}
    {offset : UInt64} (limited : Limited call target limit holds) (now : holds disk.file) :
    (∀ answers, ∀ range ∈ (startInFull call stopped
        { disk with answers := answers, touched := [] } bytes (data ++ behind) data.length
        (offT offset)).disk.touched, Inside capacity range) ↔
    fileMax < offset.toNat ∨
      min (offset.toNat + total (segments target data)) limit ≤ offset.toNat ∨
      min (offset.toNat + total (segments target data)) limit ≤ capacity := by
  by_cases large : fileMax < offset.toNat
  · have negative : offT offset < 0 := by
      have bound := UInt64.toNat_lt offset
      rw [offT, if_neg (Nat.not_le.mpr large)]
      omega
    simp [start_refused negative, large]
  · have positive : offT offset = (offset.toNat : Nat) := if_pos (Nat.not_lt.mp large)
    simp only [positive, large, false_or]
    constructor
    · intro confined
      by_contra outside
      rw [not_or, Nat.not_le, Nat.not_le] at outside
      have moving : 0 < total (segments target data) := by omega
      have below : offset.toNat < limit := by omega
      have inside := confined [.moves (total (segments target data))] _
        (start_reaches ⟨disk.file, _, []⟩ limited now rfl offset.toNat moving rfl below)
      unfold Inside at inside
      simp only at inside
      omega
    · intro within answers range member
      have touched := start_touches ⟨disk.file, answers, []⟩ limited now rfl offset.toNat range
        member
      unfold Touchable at touched
      unfold Inside
      omega

variable (bytes sector data behind) in
theorem file_inside_iff (disk : OpenFile) (capacity : Nat) (direction : Direction) :
    (∀ answers, ∀ range ∈ touchedBy rawImageRegularOps direction OpenFile.touched
        { disk with answers := answers, touched := [] } bytes sector (data ++ behind) data.length,
      Inside capacity range) ↔ FileInside disk.file capacity direction sector data := by
  cases direction with
  | fromDevice => exact transfer_inside_iff (preadv_limited disk.file.size) rfl
  | toDevice => exact transfer_inside_iff (pwritev_limited disk.file) ⟨rfl, fun _ => rfl⟩

variable (bytes sector data behind) in
theorem mapping_inside_iff (priv : Mapping) (direction : Direction) :
    (∀ range ∈ touchedBy roOps direction Mapping.touched { priv with touched := [] } bytes sector
        (data ++ behind) data.length, Inside priv.size range) ↔
      CopiesInside (targetOf direction) priv.size (sector <<< sectorShift) data := by
  have counted : ¬ ((data.length : Int) < 0) := by omega
  cases direction with
  | fromDevice =>
      have copies := copy_touches_iff memcpy_out_copies priv.size data behind
        { priv with touched := [] } bytes (sector <<< sectorShift) 0
      simpa [touchedBy, roOps, DiskImageOperations.operation, rawImageReadMmap, mmapTransfer,
        counted, targetOf] using copies
  | toDevice =>
      have copies := copy_touches_iff memcpy_in_copies priv.size data behind
        { priv with touched := [] } bytes (sector <<< sectorShift) 0
      simpa [touchedBy, roOps, DiskImageOperations.operation, rawImageWriteMmap, mmapTransfer,
        counted, targetOf] using copies

theorem qcow_touched (fuel : Nat) (q : Qcow) :
    touchedBy (qcowDiskReadonlyOps fuel) .fromDevice Qcow.touched { q with touched := [] } bytes
        sector (data ++ behind) data.length =
      (readEach fuel data.length (data ++ behind) { q with touched := [] } bytes sector
        0).disk.touched := by
  have counted : ¬ ((data.length : Int) < 0) := by omega
  simp [touchedBy, qcowDiskReadonlyOps, DiskImageOperations.operation, qcowReadSector, counted]

variable (bytes sector data behind) in
theorem qcow_inside_iff (q : Qcow) :
    (∀ fuel, ∀ range ∈ touchedBy (qcowDiskReadonlyOps fuel) .fromDevice Qcow.touched
        { q with touched := [] } bytes sector (data ++ behind) data.length,
      Inside q.size.toNat range) ↔ EachInside q sector data := by
  simp only [qcow_touched]
  constructor
  · intro confined
    by_contra outside
    obtain ⟨enough, leaves⟩ := each_outside behind outside
    obtain ⟨range, member, away⟩ := leaves enough (Nat.le_refl _) [] bytes 0
    exact away (confined enough range member)
  · intro inside fuel range member
    have fresh : Grew (fun _ => True) { q with touched := [] } q :=
      ⟨rfl, q.touched, rfl, fun _ _ => trivial⟩
    have grew : Grew (Inside q.size.toNat) { q with touched := [] }
        (readEach fuel data.length (data ++ behind) { q with touched := [] } bytes sector 0).disk :=
      each_inside fuel bytes 0 ((each_inside_grew fresh).mp inside)
    obtain ⟨more, touched, within⟩ := grew.more
    rw [touched] at member
    exact within range member

/-- A request stays inside the image exactly when its backend happens to stop it
there: no backend compares the range of a request with the capacity. -/
theorem confines_iff_within_capacity (image : Image) (direction : Direction)
    (bytes : Nat → UInt8) (sector : UInt64) (data behind : List Iovec) :
    Confines image direction bytes sector data behind ↔
      WithinCapacity direction sector data image := by
  have unserved {ranges : List Range} {size : Nat} (none : ranges = []) :
      ∀ range ∈ ranges, Inside size range := by simp [none]
  cases image with
  | regular disk capacity =>
      have whole := file_inside_iff bytes sector data behind disk capacity direction
      exact ⟨fun confined => whole.mp fun answers => confined answers 0,
        fun within answers _ => whole.mpr within answers⟩
  | mapped priv =>
      have whole := mapping_inside_iff bytes sector data behind priv direction
      exact ⟨fun confined => whole.mp (confined [] 0), fun within _ _ => whole.mpr within⟩
  | fallback disk capacity =>
      cases direction with
      | toDevice => exact ⟨fun _ => Or.inl rfl, fun _ _ _ => unserved rfl⟩
      | fromDevice =>
          have whole := file_inside_iff bytes sector data behind disk capacity .fromDevice
          constructor
          · exact fun confined => Or.inr (whole.mp fun answers => confined answers 0)
          · rintro (impossible | within)
            · simp at impossible
            · exact fun answers _ => whole.mpr within answers
  | qcow q =>
      cases direction with
      | toDevice => exact ⟨fun _ => Or.inl rfl, fun _ _ _ => unserved rfl⟩
      | fromDevice =>
          have whole := qcow_inside_iff bytes sector data behind q
          constructor
          · exact fun confined => Or.inr (whole.mp fun fuel => confined [] fuel)
          · rintro (impossible | within)
            · simp at impossible
            · exact fun _ fuel => whole.mpr within fuel

end Confinement

/-! A regular file of one sector, and a write of the sector behind it. -/

def oneSector : Image := .regular ⟨⟨fun _ => 0, 512, false⟩, [], []⟩ 512
def writtenSector : List Iovec := [⟨some ⟨0x2000, false⟩, 512⟩]

/-- The write makes the file longer than its capacity. -/
theorem write_extends_image : ¬ Confines oneSector .toDevice (fun _ => 0) 1 writtenSector [] := by
  intro confined
  have inside := confined [.moves 512] 0 ⟨512, 512⟩ (by decide)
  exact absurd inside (by decide)

end VirtioDisk.CapacityConfinement
