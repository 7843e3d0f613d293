import VirtioDisk.DescriptorChain

/-!
`preadv_in_full` and `pwritev_in_full` of util/read-write.c, over a file of the
host. `answers` is what the host does at the next calls: a transfer may be
interrupted, refused, or move fewer bytes than it was asked for. The pointer
into the array of iovecs is the list of the entries from there to the end of the
array, and walking off that end gives no result. `touched` is ghost state, the
ranges of the file that a call read or wrote. The cells of a file behind its
size are the zeroes a growing file shows.
-/

namespace VirtioDisk.ReadWrite

open ByteStore DescriptorChain

/-- A block device is `fixed`; a regular file grows when it is written behind its end. -/
structure File where
  bytes : Nat → UInt8
  size : Nat
  fixed : Bool

inductive HostAnswer where
  | again
  | fails
  | moves (most : Nat)
  deriving DecidableEq

structure OpenFile where
  file : File
  answers : List HostAnswer
  touched : List Range

/-- What a transfer leaves behind; `total` is `none` when it does not come back. -/
structure Transferred (Disk : Type) where
  total : Option Int
  disk : Disk
  bytes : Nat → UInt8

/-- The largest offset of an `off_t`. -/
def fileMax : Nat := 2 ^ 63 - 1

def loadTarget (pointer : Option HostPtr) : Option Nat :=
  pointer.map HostPtr.address

-- The ranges the host can reach: it stops at the first bad pointer.
def segments (target : Option HostPtr → Option Nat) : List Iovec → List Range
  | [] => []
  | entry :: rest =>
      match target entry.iovBase with
      | some base => ⟨base, entry.iovLen⟩ :: segments target rest
      | none => if entry.iovLen = 0 then segments target rest else []

/-- The outcome of a host call that was neither interrupted nor refused. -/
structure Moved where
  nr : Nat
  file : File
  bytes : Nat → UInt8

abbrev HostCall := File → (Nat → UInt8) → List Iovec → Nat → Nat → Moved

def preadv : HostCall := fun file bytes iov offset most =>
  let targets := segments storeTarget iov
  let nr := min most (min (total targets) (file.size - offset))
  { nr := nr
    file := file
    bytes := scatter bytes targets (readRange file.bytes offset nr) }

def pwritev : HostCall := fun file bytes iov offset most =>
  let sources := segments loadTarget iov
  let limit := if file.fixed then file.size else fileMax
  let nr := min most (min (total sources) (limit - offset))
  { nr := nr
    file := { file with
      bytes := writeRange file.bytes offset ((gather bytes sources).take nr)
      size := if nr = 0 then file.size else max file.size (offset + nr) }
    bytes := bytes }

/-- The variables of the two loops. -/
structure Place where
  iov : List Iovec
  iovcnt : Int
  total : Nat
  count : Nat
  offset : Int

def getIovSize : List Iovec → Nat → Option Nat
  | _, 0 => some 0
  | [], _ + 1 => none
  | entry :: rest, iovcnt + 1 => (getIovSize rest iovcnt).map (entry.iovLen + ·)

def shiftIovec (nr : Nat) : List Iovec → Place → Option Place
  | [], _ => none
  | entry :: rest, place =>
      if entry.iovLen ≤ nr then
        shiftIovec (nr - entry.iovLen) rest
          { iov := rest
            iovcnt := place.iovcnt - 1
            total := place.total + entry.iovLen
            count := place.count - entry.iovLen
            offset := place.offset + entry.iovLen }
      else some place

/-- The loop of the two functions. They differ in the host call and in what they
return when a call has moved nothing. -/
def inFull (call : HostCall) (stopped : Nat → Int) :
    List HostAnswer → Place → File → (Nat → UInt8) → List Range → Transferred OpenFile
  | answers, place, file, bytes, touched =>
      if place.count = 0 then ⟨some place.total, ⟨file, answers, touched⟩, bytes⟩
      else
        match answers with
        | [] => ⟨none, ⟨file, [], touched⟩, bytes⟩
        -- The restart of xpreadv and xpwritev.
        | .again :: rest => inFull call stopped rest place file bytes touched
        | .fails :: rest => ⟨some (stopped place.total), ⟨file, rest, touched⟩, bytes⟩
        | .moves most :: rest =>
            -- A negative offset is refused by the host.
            if place.offset < 0 then ⟨some (stopped place.total), ⟨file, rest, touched⟩, bytes⟩
            else
              let moved := call file bytes (place.iov.take place.iovcnt.toNat)
                place.offset.toNat most
              let touched := touched ++ [⟨place.offset.toNat, moved.nr⟩]
              if moved.nr = 0 then
                ⟨some (stopped place.total), ⟨moved.file, rest, touched⟩, moved.bytes⟩
              else
                match shiftIovec moved.nr place.iov place with
                | none => ⟨none, ⟨moved.file, rest, touched⟩, moved.bytes⟩
                | some next => inFull call stopped rest next moved.file moved.bytes touched

def startInFull (call : HostCall) (stopped : Nat → Int) (disk : OpenFile) (bytes : Nat → UInt8)
    (iov : List Iovec) (iovcnt : Int) (offset : Int) : Transferred OpenFile :=
  if iovcnt < 0 then ⟨none, disk, bytes⟩
  else
    match getIovSize iov iovcnt.toNat with
    | none => ⟨none, disk, bytes⟩
    | some count =>
        inFull call stopped disk.answers ⟨iov, iovcnt, 0, count, offset⟩ disk.file bytes
          disk.touched

def preadvInFull := startInFull preadv fun total => if total > 0 then total else -1

def pwritevInFull := startInFull pwritev fun _ => -1

/-- The bytes of a list of entries. -/
def iovBytes : List Iovec → Nat
  | [] => 0
  | entry :: rest => entry.iovLen + iovBytes rest

theorem iov_bytes_append (first second : List Iovec) :
    iovBytes (first ++ second) = iovBytes first + iovBytes second := by
  induction first with
  | nil => simp [iovBytes]
  | cons entry rest ih => simp [iovBytes, ih, Nat.add_assoc]

theorem get_iov_size_append (data behind : List Iovec) :
    getIovSize (data ++ behind) data.length = some (iovBytes data) := by
  induction data with
  | nil => cases behind <;> rfl
  | cons entry rest ih => simp [getIovSize, iovBytes, ih]

/-- Whole entries are passed; the bytes of a broken one are not counted. -/
theorem shift_iovec_spec {nr : Nat} {iov : List Iovec} {place next : Place}
    (same : place.iov = iov) (shifted : shiftIovec nr iov place = some next) :
    ∃ passed entry rest, iov = passed ++ entry :: rest ∧ iovBytes passed ≤ nr ∧
      nr < iovBytes passed + entry.iovLen ∧
      next = ⟨entry :: rest, place.iovcnt - passed.length, place.total + iovBytes passed,
        place.count - iovBytes passed, place.offset + iovBytes passed⟩ := by
  induction iov generalizing nr place with
  | nil => simp [shiftIovec] at shifted
  | cons first behind ih =>
      unfold shiftIovec at shifted
      split at shifted
      · next fits =>
          rcases ih rfl shifted with ⟨passed, entry, rest, split, covered, broken, result⟩
          refine ⟨first :: passed, entry, rest, by simp [split], ?_, ?_, ?_⟩
          · simp only [iovBytes]
            omega
          · simp only [iovBytes]
            omega
          · simp only [result, List.length_cons, iovBytes, Place.mk.injEq, true_and]
            omega
      · next breaks =>
          cases shifted
          refine ⟨[], first, behind, rfl, Nat.zero_le _, ?_, ?_⟩
          · simp only [iovBytes]
            omega
          · simp [iovBytes, ← same]

/-- The entry behind the data is not passed when at most the data was moved. -/
theorem shift_inside {nr : Nat} {data behind : List Iovec} {place next : Place} {status : Iovec}
    (same : place.iov = data ++ status :: behind) (inside : nr ≤ iovBytes data)
    (nonempty : 0 < status.iovLen)
    (shifted : shiftIovec nr (data ++ status :: behind) place = some next) :
    ∃ passed left, data = passed ++ left ∧ iovBytes passed ≤ nr ∧
      (left = [] ∨ ∃ entry rest, left = entry :: rest ∧ nr < iovBytes passed + entry.iovLen) ∧
      next = ⟨left ++ status :: behind, place.iovcnt - passed.length,
        place.total + iovBytes passed, place.count - iovBytes passed,
        place.offset + iovBytes passed⟩ := by
  rcases shift_iovec_spec same shifted with ⟨passed, entry, rest, split, covered, broken, result⟩
  rcases List.append_eq_append_iff.mp split with ⟨beyond, first, second⟩ | ⟨left, first, second⟩
  · cases beyond with
    | nil =>
        rw [List.append_nil] at first
        subst first
        rw [List.nil_append] at second
        exact ⟨passed, [], by simp, covered, Or.inl rfl, by rw [result, List.nil_append, second]⟩
    | cons head tail =>
        rw [List.cons_append, List.cons.injEq] at second
        rw [first, iov_bytes_append, iovBytes, ← second.1] at covered
        omega
  · refine ⟨passed, left, first, covered, ?_, by rw [result, second]⟩
    cases left with
    | nil => exact Or.inl rfl
    | cons head tail =>
        rw [List.cons_append, List.cons.injEq] at second
        exact Or.inr ⟨head, tail, rfl, second.1 ▸ broken⟩

def Mapped (target : Option HostPtr → Option Nat) (iov : List Iovec) : Prop :=
  ∀ entry ∈ iov, ∃ base, target entry.iovBase = some base

section Segments
variable {target : Option HostPtr → Option Nat}

theorem segments_append {first : List Iovec} (mapped : Mapped target first)
    (second : List Iovec) :
    segments target (first ++ second) = segments target first ++ segments target second := by
  induction first with
  | nil => rfl
  | cons entry rest ih =>
      rcases mapped entry (by simp) with ⟨base, reached⟩
      simp [segments, reached, ih fun later member => mapped later (List.mem_cons_of_mem _ member)]

theorem total_segments {iov : List Iovec} (mapped : Mapped target iov) :
    total (segments target iov) = iovBytes iov := by
  induction iov with
  | nil => rfl
  | cons entry rest ih =>
      rcases mapped entry (by simp) with ⟨base, reached⟩
      simp [segments, reached, iovBytes, total,
        ih fun later member => mapped later (List.mem_cons_of_mem _ member)]

end Segments

/-- A host that interrupts calls and moves less than it was asked for, but moves on. -/
def MovesOn (answers : List HostAnswer) : Prop :=
  ∀ answer ∈ answers, answer = .again ∨ ∃ most, 0 < most ∧ answer = .moves most

/-- What is left after a call that moved `nr` bytes of `data`. -/
def Left (nr : Nat) (data passed left : List Iovec) : Prop :=
  data = passed ++ left ∧ iovBytes passed ≤ nr ∧
    (left = [] ∨ ∃ entry rest, left = entry :: rest ∧ nr < iovBytes passed + entry.iovLen)

-- A property of what is left that every call keeps holds when nothing is left.
theorem in_full_rule {call : HostCall} {stopped : Nat → Int}
    {holds : List Iovec → Nat → File → (Nat → UInt8) → Prop}
    (moves : ∀ data offset file bytes most, holds data offset file bytes → 0 < most →
      0 < iovBytes data → 0 < (call file bytes data offset most).nr ∧
        (call file bytes data offset most).nr ≤ iovBytes data)
    (keeps : ∀ data passed left offset file bytes most, holds data offset file bytes →
      Left (call file bytes data offset most).nr data passed left →
      holds left (offset + iovBytes passed) (call file bytes data offset most).file
        (call file bytes data offset most).bytes)
    {answers : List HostAnswer} (host : MovesOn answers) {status : Iovec} {behind : List Iovec}
    (nonempty : 0 < status.iovLen) {data : List Iovec} {done offset : Nat} {file : File}
    {bytes : Nat → UInt8} {touched : List Range} {result : Int} {after : Transferred OpenFile}
    (now : holds data offset file bytes)
    (ended : inFull call stopped answers
      ⟨data ++ status :: behind, data.length, done, iovBytes data, offset⟩ file bytes touched =
        after) (returned : after.total = some result) :
    result = (done + iovBytes data : Nat) ∧ MovesOn after.disk.answers ∧
      ∃ left last, iovBytes left = 0 ∧ holds left last after.disk.file after.bytes := by
  induction answers generalizing data done offset file bytes touched with
  | nil =>
      by_cases finished : iovBytes data = 0
      · simp only [inFull, finished, if_true] at ended
        subst ended
        cases returned
        exact ⟨by simp [finished], host, data, offset, finished, now⟩
      · simp only [inFull, finished, if_false] at ended
        subst ended
        simp at returned
  | cons answer rest ih =>
      by_cases finished : iovBytes data = 0
      · unfold inFull at ended
        simp only [finished, if_true] at ended
        subst ended
        cases returned
        exact ⟨by simp [finished], host, data, offset, finished, now⟩
      · have later : MovesOn rest := fun a member => host a (List.mem_cons_of_mem _ member)
        rcases host answer (by simp) with again | ⟨most, some_, moved⟩
        · subst again
          simp only [inFull, finished, if_false] at ended
          exact ih later now ended
        · subst moved
          have positive : 0 < iovBytes data := by omega
          rcases moves data offset file bytes most now some_ positive with ⟨progress, inside⟩
          have forward : ¬ ((offset : Int) < 0) := by omega
          have stuck : (call file bytes data offset most).nr ≠ 0 := by omega
          simp only [inFull, finished, if_false, forward, Int.toNat_natCast,
            List.take_left', stuck] at ended
          split at ended
          · subst ended
            simp at returned
          · next next shifted =>
              rcases shift_inside rfl inside nonempty shifted with
                ⟨passed, left, split, covered, broken, place⟩
              have kept := keeps data passed left offset file bytes most now
                ⟨split, covered, broken⟩
              have bytes_split : iovBytes data = iovBytes passed + iovBytes left := by
                rw [split, iov_bytes_append]
              have length_split : data.length = passed.length + left.length := by
                rw [split, List.length_append]
              have counted : (data.length : Int) - passed.length = left.length := by omega
              have counts : iovBytes data - iovBytes passed = iovBytes left := by omega
              have moved_on :
                  (offset : Int) + iovBytes passed = (offset + iovBytes passed : Nat) := by
                omega
              simp only [place, counted, counts, moved_on] at ended
              rcases ih later kept ended with ⟨sum, onward, last⟩
              exact ⟨by rw [sum]; omega, onward, last⟩

/-- The last restart is what counts: the bytes a broken entry received are
written once more from its start. -/
theorem scatter_left {nr : Nat} {data passed left : List Iovec} (here : Left nr data passed left)
    (inside : nr ≤ iovBytes data) (mapped : Mapped storeTarget data) (bytes store : Nat → UInt8)
    (offset : Nat) :
    scatter (scatter bytes (segments storeTarget data) (readRange store offset nr))
        (segments storeTarget left) (readRange store (offset + iovBytes passed) (iovBytes left)) =
      scatter bytes (segments storeTarget data) (readRange store offset (iovBytes data)) := by
  rcases here with ⟨split, covered, broken⟩
  subst split
  have first : Mapped storeTarget passed := fun e member => mapped e (by simp [member])
  have second : Mapped storeTarget left := fun e member => mapped e (by simp [member])
  have passed_total := total_segments first
  rw [iov_bytes_append] at inside ⊢
  have same : scatter bytes (segments storeTarget passed) (readRange store offset nr) =
      scatter bytes (segments storeTarget passed)
        (readRange store offset (iovBytes passed + iovBytes left)) := by
    rw [← scatter_take _ _ _ _ (Nat.le_of_eq passed_total), readRange_take _ _ _ _ covered,
      ← readRange_take store offset (iovBytes passed + iovBytes left) _ (by omega),
      scatter_take _ _ _ _ (Nat.le_of_eq passed_total)]
  rw [segments_append first, scatter_append, scatter_append, passed_total, same,
    readRange_drop _ _ _ _ covered, readRange_drop _ _ _ _ (by omega), Nat.add_sub_cancel_left]
  rcases broken with none | ⟨entry, rest, cut, short⟩
  · simp [none, segments, scatter]
  · rcases second entry (by simp [cut]) with ⟨base, reached⟩
    subst cut
    simp only [segments, reached]
    apply scatter_again
    · simp only [length_readRange]
      omega
    · simp only [length_readRange]
      omega

theorem write_left {nr : Nat} {data passed left : List Iovec} (here : Left nr data passed left)
    (mapped : Mapped loadTarget data) (bytes store : Nat → UInt8)
    (offset : Nat) :
    writeRange (writeRange store offset ((gather bytes (segments loadTarget data)).take nr))
        (offset + iovBytes passed) (gather bytes (segments loadTarget left)) =
      writeRange store offset (gather bytes (segments loadTarget data)) := by
  rcases here with ⟨split, covered, _⟩
  subst split
  have first : Mapped loadTarget passed := fun e member => mapped e (by simp [member])
  have length : (gather bytes (segments loadTarget passed)).length = iovBytes passed := by
    rw [length_gather, total_segments first]
  have longer : ((gather bytes (segments loadTarget left)).take (nr - iovBytes passed)).length ≤
      (gather bytes (segments loadTarget left)).length := by
    simp only [List.length_take]
    omega
  rw [segments_append first, gather_append, List.take_append, length,
    List.take_of_length_le (length ▸ covered), writeRange_append, length,
    writeRange_again _ _ _ _ longer, writeRange_append, length]

section InFull
variable {data behind : List Iovec} {status : Iovec} {disk : OpenFile} {bytes : Nat → UInt8}
variable {after : Transferred OpenFile} {offset : Nat} {result : Int}

/-- A read that a moving host ends has filled all its segments. -/
theorem preadv_in_full_spec (nonempty : 0 < status.iovLen) (host : MovesOn disk.answers)
    (mapped : Mapped storeTarget data) (inside : offset + iovBytes data ≤ disk.file.size)
    (ended : preadvInFull disk bytes (data ++ status :: behind) data.length offset = after)
    (returned : after.total = some result) :
    result = iovBytes data ∧ MovesOn after.disk.answers ∧ after.disk.file = disk.file ∧
      after.bytes = scatter bytes (segments storeTarget data)
        (readRange disk.file.bytes offset (iovBytes data)) := by
  let holds (left : List Iovec) (now : Nat) (file : File) (memory : Nat → UInt8) : Prop :=
    file = disk.file ∧ Mapped storeTarget left ∧ now + iovBytes left ≤ disk.file.size ∧
      scatter memory (segments storeTarget left)
          (readRange disk.file.bytes now (iovBytes left)) =
        scatter bytes (segments storeTarget data)
          (readRange disk.file.bytes offset (iovBytes data))
  simp only [preadvInFull, startInFull, get_iov_size_append, Int.toNat_natCast,
    Int.not_ofNat_neg, if_false] at ended
  have moves (left : List Iovec) (now : Nat) (file : File) (memory : Nat → UInt8) (most : Nat)
      (here : holds left now file memory) :
      (preadv file memory left now most).nr = min most (iovBytes left) := by
    rcases here with ⟨same, reached, room, _⟩
    subst same
    simp only [preadv, total_segments reached]
    omega
  have kept : result = (0 + iovBytes data : Nat) ∧ MovesOn after.disk.answers ∧
      ∃ left last, iovBytes left = 0 ∧ holds left last after.disk.file after.bytes := by
    refine in_full_rule ?_ ?_ host nonempty ⟨rfl, mapped, inside, rfl⟩ ended
      returned
    · intro left now file memory most here some_ positive
      rw [moves left now file memory most here]
      omega
    · intro left passed rest now file memory most here cut
      rcases here with ⟨same, reached, room, finish⟩
      have bound : (preadv file memory left now most).nr ≤ iovBytes left := by
        rw [moves left now file memory most ⟨same, reached, room, finish⟩]
        exact Nat.min_le_right _ _
      have sum : iovBytes left = iovBytes passed + iovBytes rest := by
        rw [cut.1, iov_bytes_append]
      refine ⟨same, fun e member => reached e (by simp [cut.1, member]), by omega, ?_⟩
      rw [← finish]
      have again := scatter_left cut bound reached memory disk.file.bytes now
      simpa only [preadv, same] using again
  rcases kept with ⟨sum, onward, left, last, nothing, same, _, _, finish⟩
  refine ⟨by simpa using sum, onward, same, ?_⟩
  rw [← finish, nothing]
  simp [readRange]

/-- A write inside the file that a moving host ends has stored all its segments. -/
theorem pwritev_in_full_spec (nonempty : 0 < status.iovLen) (host : MovesOn disk.answers)
    (mapped : Mapped loadTarget data) (inside : offset + iovBytes data ≤ disk.file.size)
    (bounded : disk.file.size ≤ fileMax)
    (ended : pwritevInFull disk bytes (data ++ status :: behind) data.length offset = after)
    (returned : after.total = some result) :
    result = iovBytes data ∧ MovesOn after.disk.answers ∧ after.bytes = bytes ∧
      after.disk.file.size = disk.file.size ∧
      after.disk.file.bytes =
        writeRange disk.file.bytes offset (gather bytes (segments loadTarget data)) := by
  let holds (left : List Iovec) (now : Nat) (file : File) (memory : Nat → UInt8) : Prop :=
    memory = bytes ∧ Mapped loadTarget left ∧ now + iovBytes left ≤ disk.file.size ∧
      file.size = disk.file.size ∧
      writeRange file.bytes now (gather bytes (segments loadTarget left)) =
        writeRange disk.file.bytes offset (gather bytes (segments loadTarget data))
  simp only [pwritevInFull, startInFull, get_iov_size_append, Int.toNat_natCast,
    Int.not_ofNat_neg, if_false] at ended
  have moves (left : List Iovec) (now : Nat) (file : File) (memory : Nat → UInt8) (most : Nat)
      (here : holds left now file memory) :
      (pwritev file memory left now most).nr = min most (iovBytes left) := by
    rcases here with ⟨_, reached, room, size, _⟩
    simp only [pwritev, total_segments reached, size]
    split <;> omega
  have kept : result = (0 + iovBytes data : Nat) ∧ MovesOn after.disk.answers ∧
      ∃ left last, iovBytes left = 0 ∧ holds left last after.disk.file after.bytes := by
    refine in_full_rule ?_ ?_ host nonempty ⟨rfl, mapped, inside, rfl, rfl⟩ ended
      returned
    · intro left now file memory most here some_ positive
      rw [moves left now file memory most here]
      omega
    · intro left passed rest now file memory most here cut
      have count := moves left now file memory most here
      rcases here with ⟨unchanged, reached, room, size, finish⟩
      have sum : iovBytes left = iovBytes passed + iovBytes rest := by
        rw [cut.1, iov_bytes_append]
      refine ⟨unchanged, fun e member => reached e (by simp [cut.1, member]), by omega, ?_, ?_⟩
      · have grown : max file.size (now + (pwritev file memory left now most).nr) = file.size := by
          rw [count]
          omega
        simp only [pwritev] at grown ⊢
        rw [grown, ite_self, size]
      · rw [← finish, ← unchanged]
        exact write_left cut reached memory file.bytes now
  rcases kept with ⟨sum, onward, left, last, nothing, same, reached, _, size, finish⟩
  have none : gather bytes (segments loadTarget left) = [] := by
    apply List.eq_nil_of_length_eq_zero
    rw [length_gather, total_segments reached, nothing]
  rw [none, writeRange_nil] at finish
  exact ⟨by simpa using sum, onward, same, size, finish⟩

end InFull

end VirtioDisk.ReadWrite
