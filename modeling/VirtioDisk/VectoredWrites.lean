import VirtioDisk.CapacityConfinement
import VirtioDisk.VectoredReads

/-!
`pwritev_in_full` on a host that may do anything at each call: interrupt it, refuse it,
move any part of what it is given, or nothing. The loop goes on in whole entries, so that
the part of a broken entry that has been stored is stored once more. What the file has
at any time is the old content under a first part of the bytes of the entries.
-/

namespace VirtioDisk.VectoredWrites

open ByteStore DescriptorChain ReadWrite
open CapacityConfinement (segments_le)
open VectoredReads (shift_stops)

theorem store_again (store : Nat → UInt8) (base : Nat) (content : List UInt8)
    {passed reached : Nat} (nr : Nat) (covered : passed ≤ reached) (inside : passed ≤ content.length) :
    writeRange (writeRange store base (content.take reached)) (base + passed)
        ((content.drop passed).take nr) =
      writeRange store base (content.take (max reached (passed + nr))) := by
  have split (count : Nat) (behind : passed ≤ count) :
      content.take count = content.take passed ++ (content.drop passed).take (count - passed) := by
    rw [← List.take_append_drop passed (content.take count), List.take_take, List.drop_take,
      Nat.min_eq_left behind]
  have length : (content.take passed).length = passed := by
    rw [List.length_take, Nat.min_eq_left inside]
  rw [split reached covered, split (max reached (passed + nr)) (by omega), writeRange_append,
    writeRange_append, length]
  by_cases longer : reached - passed ≤ nr
  · have last : max reached (passed + nr) - passed = nr := by omega
    rw [last, writeRange_again]
    simp only [List.length_take]
    omega
  · have last : max reached (passed + nr) - passed = reached - passed := by omega
    rw [last]
    funext address
    rcases writeRange_cases (writeRange (writeRange store base (content.take passed))
        (base + passed) ((content.drop passed).take (reached - passed))) (base + passed)
        ((content.drop passed).take nr) address with ⟨i, here, place, same⟩ | ⟨_, same⟩
    · have early : i < ((content.drop passed).take (reached - passed)).length := by
        simp only [List.length_take] at here ⊢
        omega
      rw [same, place, writeRange_inside _ _ _ _ early]
      simp only [List.getElem_take]
    · exact same

theorem segments_passed {target : Option HostPtr → Option Nat} {passed left : List Iovec}
    (covered : iovBytes passed ≤ total (segments target (passed ++ left))) :
    segments target (passed ++ left) = segments target passed ++ segments target left ∧
      total (segments target passed) = iovBytes passed := by
  induction passed with
  | nil => exact ⟨rfl, rfl⟩
  | cons entry rest ih =>
      simp only [List.cons_append, segments, iovBytes] at covered ⊢
      cases base : target entry.iovBase with
      | some base =>
          simp only [base, total] at covered ⊢
          obtain ⟨split, sum⟩ := ih (by omega)
          exact ⟨by rw [split, List.cons_append], by rw [sum]⟩
      | none =>
          simp only [base] at covered ⊢
          by_cases empty : entry.iovLen = 0
          · simp only [empty, if_true, Nat.zero_add] at covered ⊢
            exact ih covered
          · simp only [empty, if_false, total] at covered
            omega

section Runs
variable {content : List UInt8} {size offset : Nat} {old file : File} {bytes : Nat → UInt8}
variable {left behind : List Iovec} {status : Iovec} {passed most : Nat}

/-- The place of the loop after some calls: the entries before it are stored, and the file
has a first part of the content that may reach further. -/
structure Stored (content : List UInt8) (size offset : Nat) (old : File) (bytes : Nat → UInt8)
    (left : List Iovec) (passed : Nat) (file : File) : Prop where
  sum : passed + iovBytes left = size
  inside : passed ≤ content.length
  rest : gather bytes (segments loadTarget left) = content.drop passed
  written : ∃ reached, passed ≤ reached ∧ file.bytes = writeRange old.bytes offset (content.take reached)
  larger : old.size ≤ file.size ∧ file.size ≤ max old.size (offset + size)
  covers : 0 < passed → offset + passed ≤ file.size

theorem moved_le (file : File) (bytes : Nat → UInt8) (left : List Iovec) (place most : Nat) :
    (pwritev file bytes left place most).nr ≤ iovBytes left :=
  Nat.le_trans (Nat.le_trans (Nat.min_le_right _ _) (Nat.min_le_left _ _)) (segments_le _ _)

theorem idle_file {place : Nat} (idle : (pwritev file bytes left place most).nr = 0) :
    (pwritev file bytes left place most).file = file := by
  have nothing : (pwritev file bytes left place most).file =
      { file with
        bytes := writeRange file.bytes place ((gather bytes (segments loadTarget left)).take
          (pwritev file bytes left place most).nr)
        size := if (pwritev file bytes left place most).nr = 0 then file.size
          else max file.size (place + (pwritev file bytes left place most).nr) } := rfl
  rw [nothing, idle, List.take_zero, writeRange_nil, if_pos rfl]

/-- One call stores the next bytes from the place of the loop, which goes on behind the
entries that the call has covered. -/
theorem call_stores {done rest : List Iovec}
    (stored : Stored content size offset old bytes left passed file)
    (cut : Left (pwritev file bytes left (offset + passed) most).nr left done rest)
    (moved : (pwritev file bytes left (offset + passed) most).nr ≠ 0) :
    Stored content size offset old bytes rest (passed + iovBytes done)
      (pwritev file bytes left (offset + passed) most).file := by
  have grown : (pwritev file bytes left (offset + passed) most).file.size =
      max file.size (offset + passed + (pwritev file bytes left (offset + passed) most).nr) :=
    if_neg moved
  have stores : (pwritev file bytes left (offset + passed) most).file.bytes =
      writeRange file.bytes (offset + passed) ((gather bytes (segments loadTarget left)).take
        (pwritev file bytes left (offset + passed) most).nr) := rfl
  have reach : (pwritev file bytes left (offset + passed) most).nr ≤
      total (segments loadTarget left) :=
    Nat.le_trans (Nat.min_le_right _ _) (Nat.min_le_left _ _)
  have short := moved_le file bytes left (offset + passed) most
  generalize pwritev file bytes left (offset + passed) most = after at *
  obtain ⟨split, covered, _⟩ := cut
  obtain ⟨reached, far, same⟩ := stored.written
  have inside := stored.inside
  have sum := stored.sum
  have larger := stored.larger
  have gathered := stored.rest
  rw [gathered, same, store_again old.bytes offset content _ far inside] at stores
  subst split
  obtain ⟨apart, whole⟩ := segments_passed (Nat.le_trans covered reach)
  rw [apart, gather_append] at gathered
  have fits := congrArg List.length gathered
  rw [iov_bytes_append] at sum short
  rw [List.length_append, length_gather, length_gather, whole, List.length_drop] at fits
  refine ⟨by omega, by omega, ?_, ⟨_, by omega, stores⟩, by omega, fun _ => by omega⟩
  rw [← List.drop_drop, ← gathered, List.drop_left']
  rw [length_gather, whole]

/-- One turn of the loop: the call has moved nothing, or the loop goes on behind the entries
that were covered. The entry behind the list stops it there. -/
theorem write_turn (behind : List Iovec) (nonempty : 0 < status.iovLen) (file : File) (bytes : Nat → UInt8)
    (place sum most : Nat) (rest : List HostAnswer) (touched : List Range)
    (some_ : 0 < iovBytes left) :
    let moved := pwritev file bytes left place most
    let ranges := touched ++ [⟨place, moved.nr⟩]
    let turn := inFull pwritev (fun _ => -1) (.moves most :: rest)
      ⟨left ++ status :: behind, left.length, sum, iovBytes left, place⟩ file bytes touched
    (moved.nr = 0 ∧ turn = ⟨some (-1), ⟨moved.file, rest, ranges⟩, bytes⟩) ∨
    (moved.nr ≠ 0 ∧ ∃ done behindDone, Left moved.nr left done behindDone ∧
      turn = inFull pwritev (fun _ => -1) rest
        ⟨behindDone ++ status :: behind, behindDone.length, sum + iovBytes done,
          iovBytes behindDone, (place + iovBytes done : Nat)⟩ moved.file bytes ranges) := by
  intro moved ranges turn
  have forward : ¬ ((place : Int) < 0) := by omega
  by_cases idle : moved.nr = 0
  · refine Or.inl ⟨idle, ?_⟩
    simp only [turn, inFull, some_.ne', if_false, forward, Int.toNat_natCast, List.take_left']
    exact if_pos idle
  · have short : moved.nr ≤ iovBytes left := moved_le file bytes left place most
    have stops : moved.nr < iovBytes (left ++ status :: behind) := by
      rw [iov_bytes_append, iovBytes]
      omega
    obtain ⟨next, shifted⟩ : ∃ next, shiftIovec moved.nr (left ++ status :: behind)
        ⟨left ++ status :: behind, left.length, sum, iovBytes left, place⟩ = some next :=
      shift_stops stops
    obtain ⟨done, last, split, covered, broken, found⟩ := shift_inside rfl short nonempty shifted
    refine Or.inr ⟨idle, done, last, ⟨split, covered, broken⟩, ?_⟩
    have counted : (left.length : Int) - done.length = last.length := by
      rw [split, List.length_append]
      omega
    have counts : iovBytes left - iovBytes done = iovBytes last := by
      rw [split, iov_bytes_append]
      omega
    have onward : (place : Int) + iovBytes done = (place + iovBytes done : Nat) := by omega
    simp only [turn, inFull, some_.ne', if_false, forward, Int.toNat_natCast, List.take_left']
    refine (if_neg idle).trans ?_
    rw [shifted]
    simp only [found, counted, counts, onward]
    rfl

theorem write_run (nonempty : 0 < status.iovLen) (answers : List HostAnswer)
    (touched : List Range) (stored : Stored content size offset old bytes left passed file) :
    let after := inFull pwritev (fun _ => -1) answers
      ⟨left ++ status :: behind, left.length, passed, iovBytes left, (offset + passed : Nat)⟩ file
        bytes touched
    ∃ last ended,
      Stored content size offset old bytes last ended after.disk.file ∧
      (after.total = none ∨ after.total = some (-1) ∨
        after.total = some (ended : Int) ∧ iovBytes last = 0) := by
  induction answers generalizing left passed file touched with
  | nil =>
      intro after
      by_cases finished : iovBytes left = 0
      · have same : after = ⟨some (passed : Int), ⟨file, [], touched⟩, bytes⟩ := by
          simp only [after, inFull, finished, if_true]
        rw [same]
        exact ⟨left, passed, stored, Or.inr (Or.inr ⟨rfl, finished⟩)⟩
      · have same : after = ⟨none, ⟨file, [], touched⟩, bytes⟩ := by
          simp only [after, inFull, finished, if_false]
        rw [same]
        exact ⟨left, passed, stored, Or.inl rfl⟩
  | cons answer rest ih =>
      intro after
      by_cases finished : iovBytes left = 0
      · have same : after = ⟨some (passed : Int), ⟨file, answer :: rest, touched⟩, bytes⟩ := by
          unfold after inFull
          simp only [finished, if_true]
        rw [same]
        exact ⟨left, passed, stored, Or.inr (Or.inr ⟨rfl, finished⟩)⟩
      · cases answer with
        | again =>
            simp only [after, inFull, finished, if_false]
            exact ih touched stored
        | fails =>
            have same : after = ⟨some (-1), ⟨file, rest, touched⟩, bytes⟩ := by
              simp only [after, inFull, finished, if_false]
            rw [same]
            exact ⟨left, passed, stored, Or.inr (Or.inl rfl)⟩
        | moves most =>
            rcases write_turn behind nonempty file bytes (offset + passed) passed most
                rest touched (Nat.pos_of_ne_zero finished) with
              ⟨idle, turn⟩ | ⟨moved, done, last, cut, turn⟩
            · rw [show after = _ from turn, idle_file idle]
              exact ⟨left, passed, stored, Or.inr (Or.inl rfl)⟩
            · rw [show after = _ from turn, Nat.add_assoc]
              exact ih _ (call_stores stored cut moved)

theorem write_returns (nonempty : 0 < status.iovLen) (answers : List HostAnswer) (sum place : Nat)
    (touched : List Range) :
    (inFull pwritev (fun _ => -1) (answers ++ [.fails])
      ⟨left ++ status :: behind, left.length, sum, iovBytes left, place⟩ file bytes
        touched).total.isSome := by
  induction answers generalizing left sum place file touched with
  | nil =>
      simp only [List.nil_append, inFull]
      split <;> rfl
  | cons answer rest ih =>
      rw [List.cons_append]
      by_cases finished : iovBytes left = 0
      · unfold inFull
        simp only [finished, if_true, Option.isSome_some]
      · cases answer with
        | again =>
            simp only [inFull, finished, if_false]
            exact ih sum place touched
        | fails => simp only [inFull, finished, if_false, Option.isSome_some]
        | moves most =>
            rcases write_turn behind nonempty file bytes place sum most
                (rest ++ [.fails]) touched (Nat.pos_of_ne_zero finished) with
              ⟨_, turn⟩ | ⟨_, done, last, _, turn⟩
            · rw [turn]
              rfl
            · rw [turn]
              exact ih _ _ _

theorem negative_offset {place : Place} (negative : place.offset < 0) (file : File)
    (bytes : Nat → UInt8) (answers : List HostAnswer) (touched : List Range) :
    let after := inFull pwritev (fun _ => -1) answers place file bytes touched
    after.disk.file = file ∧ (after.total = none ∨ after.total = some (-1) ∨
      after.total = some (place.total : Int) ∧ place.count = 0) ∧
    (inFull pwritev (fun _ => -1) (answers ++ [.fails]) place file bytes touched).total.isSome := by
  induction answers with
  | nil =>
      by_cases finished : place.count = 0 <;> simp [inFull, finished]
  | cons answer rest ih =>
      rw [List.cons_append]
      by_cases finished : place.count = 0
      · unfold inFull
        simp [finished]
      · cases answer with
        | again =>
            simp only [inFull, finished, if_false]
            simpa only [finished] using ih
        | fails => simp [inFull, finished]
        | moves most => simp [inFull, finished, negative]

end Runs

/-! The function. -/

section Function
variable {data behind : List Iovec} {status : Iovec} {disk : OpenFile} {bytes : Nat → UInt8}

theorem started (data behind : List Iovec) (disk : OpenFile) (bytes : Nat → UInt8) (offset : Int) :
    pwritevInFull disk bytes (data ++ behind) data.length offset =
      inFull pwritev (fun _ => -1) disk.answers
        ⟨data ++ behind, data.length, 0, iovBytes data, offset⟩ disk.file bytes disk.touched := by
  simp only [pwritevInFull, startInFull, get_iov_size_append, Int.toNat_natCast,
    Int.not_ofNat_neg, if_false]

theorem nothing_stored (data : List Iovec) (bytes : Nat → UInt8) (offset : Nat) (old : File) :
    Stored (gather bytes (segments loadTarget data)) (iovBytes data) offset old bytes data 0 old where
  sum := Nat.zero_add _
  inside := Nat.zero_le _
  rest := rfl
  written := ⟨0, Nat.le_refl 0, by rw [List.take_zero, writeRange_nil]⟩
  larger := ⟨Nat.le_refl _, Nat.le_max_left _ _⟩
  covers := fun impossible => absurd impossible (Nat.lt_irrefl 0)

theorem stored_cases {content : List UInt8} {size offset passed : Nat} {old file : File}
    {left : List Iovec} (stored : Stored content size offset old bytes left passed file) (i : Nat) :
    file.bytes (offset + i) = old.bytes (offset + i) ∨
      content[i]? = some (file.bytes (offset + i)) := by
  obtain ⟨reached, _, same⟩ := stored.written
  rw [same]
  by_cases inside : i < (content.take reached).length
  · right
    rw [writeRange_inside _ _ _ _ inside, List.getElem_take, List.getElem?_eq_getElem]
  · left
    exact writeRange_outside _ _ _ _ (by omega)

theorem stored_outside {content : List UInt8} {size offset passed : Nat} {old file : File}
    {left : List Iovec} (stored : Stored content size offset old bytes left passed file)
    (fits : content.length ≤ size) {address : Nat}
    (outside : address < offset ∨ offset + size ≤ address) :
    file.bytes address = old.bytes address := by
  obtain ⟨reached, _, same⟩ := stored.written
  rw [same]
  apply writeRange_outside
  have less : (content.take reached).length ≤ content.length := List.length_take_le' _ _
  omega

theorem all_stored {content : List UInt8} {size offset passed : Nat} {old file : File}
    {left : List Iovec} (stored : Stored content size offset old bytes left passed file)
    (fits : content.length ≤ size) (finished : iovBytes left = 0) :
    passed = size ∧ readRange file.bytes offset size = content := by
  obtain ⟨reached, far, same⟩ := stored.written
  have sum := stored.sum
  have inside := stored.inside
  have whole : content.take reached = content := List.take_of_length_le (by omega)
  have length : size = content.length := by omega
  rw [same, whole, length]
  exact ⟨by omega, readRange_writeRange _ _ _⟩

/-- Whatever the host does, a write that reports success has stored all the bytes of the
entries, one that fails has stored some of them, and there is no change beside them. -/
theorem vectored_write_stores (disk : OpenFile) (bytes : Nat → UInt8) (data behind : List Iovec)
    (status : Iovec) (offset : Int) (nonempty : 0 < status.iovLen) :
    let content := gather bytes (segments loadTarget data)
    let after := pwritevInFull disk bytes (data ++ status :: behind) data.length offset
    (∀ result, after.total = some result → result = -1 ∨
      result = iovBytes data ∧
        readRange after.disk.file.bytes offset.toNat (iovBytes data) = content ∧
        (0 < iovBytes data → 0 ≤ offset ∧ offset + iovBytes data ≤ after.disk.file.size)) ∧
    (∀ i < iovBytes data,
      after.disk.file.bytes (offset.toNat + i) = disk.file.bytes (offset.toNat + i) ∨
        content[i]? = some (after.disk.file.bytes (offset.toNat + i))) ∧
    (∀ address, address < offset.toNat ∨ offset.toNat + iovBytes data ≤ address →
      after.disk.file.bytes address = disk.file.bytes address) ∧
    (pwritevInFull { disk with answers := disk.answers ++ [.fails] } bytes
      (data ++ status :: behind) data.length offset).total.isSome := by
  intro content after
  have fits : content.length ≤ iovBytes data := by
    rw [length_gather]
    exact segments_le _ _
  have ended : after = inFull pwritev (fun _ => -1) disk.answers
      ⟨data ++ status :: behind, data.length, 0, iovBytes data, offset⟩ disk.file bytes
        disk.touched := started data (status :: behind) disk bytes offset
  rw [started data (status :: behind) { disk with answers := disk.answers ++ [.fails] } bytes]
  by_cases negative : offset < 0
  · obtain ⟨same, ends, returns⟩ := negative_offset
      (show Place.offset ⟨data ++ status :: behind, data.length, 0, iovBytes data, offset⟩ < 0
        from negative) disk.file bytes disk.answers disk.touched
    rw [← ended] at same ends
    refine ⟨?_, fun i _ => Or.inl (by rw [same]), fun address _ => by rw [same], returns⟩
    intro result reported
    rcases ends with none | failed | ⟨sum, empty⟩
    · rw [reported] at none
      cases none
    · rw [reported] at failed
      exact Or.inl (Option.some.inj failed)
    · have nothing : iovBytes data = 0 := empty
      have zero : result = 0 := Option.some.inj (reported.symm.trans sum)
      have bare : content = [] := List.eq_nil_of_length_eq_zero (by omega)
      refine Or.inr ⟨by omega, ?_, fun some_ => absurd some_ (by omega)⟩
      rw [bare, nothing]
      rfl
  · obtain ⟨start, position⟩ := Int.eq_ofNat_of_zero_le (Int.not_lt.mp negative)
    subst position
    obtain ⟨left, passed, stored, ends⟩ := write_run nonempty disk.answers disk.touched
      (nothing_stored data bytes start disk.file)
    rw [Nat.add_zero, ← ended] at stored ends
    rw [Int.toNat_natCast]
    refine ⟨?_, fun i _ => stored_cases stored i, fun address => stored_outside stored fits,
      write_returns nonempty _ _ _ _⟩
    intro result reported
    rcases ends with none | failed | ⟨sum, finished⟩
    · rw [reported] at none
      cases none
    · rw [reported] at failed
      exact Or.inl (Option.some.inj failed)
    · rw [reported] at sum
      obtain ⟨all, whole⟩ := all_stored stored fits finished
      refine Or.inr ⟨by rw [Option.some.inj sum, all], whole, fun some_ => ⟨by omega, ?_⟩⟩
      have covers := stored.covers (by omega)
      omega

end Function

/-- Two bytes behind an entry without any; the host is interrupted between them. -/
def hesitant : OpenFile := ⟨⟨fun _ => 7, 4, false⟩, [.moves 1, .again, .moves 9], []⟩

def memory (address : Nat) : UInt8 := UInt8.ofNat address

def twoBytes : List Iovec := [⟨none, 0⟩, ⟨some ⟨5, false⟩, 2⟩]

def oneByte : Iovec := ⟨some ⟨0, true⟩, 1⟩

theorem two_bytes_stored :
    readRange (pwritevInFull hesitant memory (twoBytes ++ [oneByte]) 2 3).disk.file.bytes 3 2 =
      [5, 6] := by
  have outcome := vectored_write_stores hesitant memory twoBytes [] oneByte 3 (by decide)
  rcases outcome.1 2 (by rfl) with failed | ⟨_, stored, _⟩
  · cases failed
  · exact stored

end VirtioDisk.VectoredWrites
