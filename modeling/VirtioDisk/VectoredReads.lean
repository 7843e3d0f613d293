import VirtioDisk.ReadWrite

/-!
`preadv_in_full` on a host that moves all it can at each call. The loop goes on in
whole entries, so that a file that ends inside an entry is read from the start of
this entry again, for ever.
-/

namespace VirtioDisk.VectoredReads

open ByteStore DescriptorChain ReadWrite

section Shift
variable {nr : Nat} {iov : List Iovec} {place : Place}

theorem shift_off (covered : iovBytes iov ≤ nr) : shiftIovec nr iov place = none := by
  induction iov generalizing nr place with
  | nil => rfl
  | cons entry rest ih =>
      rw [iovBytes] at covered
      rw [shiftIovec, if_pos (by omega)]
      exact ih (by omega)

theorem shift_stops (short : nr < iovBytes iov) : ∃ next, shiftIovec nr iov place = some next := by
  induction iov generalizing nr place with
  | nil => exact absurd short (Nat.not_lt_zero nr)
  | cons entry rest ih =>
      rw [iovBytes] at short
      by_cases fits : entry.iovLen ≤ nr
      · rw [shiftIovec, if_pos fits]
        exact ih (by omega)
      · rw [shiftIovec, if_neg fits]
        exact ⟨place, rfl⟩

end Shift

/-- The bytes of the range that the file has. -/
def available (file : File) (data : List Iovec) (offset : Nat) : Nat :=
  min (iovBytes data) (file.size - offset)

def reported (file : File) (data : List Iovec) (offset : Nat) : Int :=
  if available file data offset = 0 ∧ 0 < iovBytes data then -1 else available file data offset

/-- `behind` is what the memory has behind the entries, and `most` what a call may move. -/
def Returns (file : File) (bytes : Nat → UInt8) (data behind : List Iovec) (offset most : Nat)
    (result : Int) : Prop :=
  ∃ calls, (preadvInFull ⟨file, List.replicate calls (.moves most), []⟩ bytes (data ++ behind)
    data.length offset).total = some result

/-- The file ends between two entries, and if it covers them all, then the memory has one
more behind them that is not empty. -/
def EndsBetween (file : File) (data behind : List Iovec) (offset : Nat) : Prop :=
  (∃ count, iovBytes (data.take count) = available file data offset) ∧
    (0 < iovBytes data → available file data offset = iovBytes data → 0 < iovBytes behind)

def stopped (total : Nat) : Int := if total > 0 then total else -1

section Loop
variable {file : File} {bytes : Nat → UInt8} {data behind : List Iovec} {offset most : Nat}

theorem call_moves {left : List Iovec} {place : Nat} (mapped : Mapped storeTarget left)
    (whole : iovBytes left ≤ most) :
    (preadv file bytes left place most).nr = available file left place := by
  simp only [preadv, total_segments mapped, available]
  omega

theorem started (data behind : List Iovec) (disk : OpenFile) :
    preadvInFull disk bytes (data ++ behind) data.length offset =
      inFull preadv stopped disk.answers
        ⟨data ++ behind, data.length, 0, iovBytes data, offset⟩ disk.file bytes disk.touched := by
  simp only [preadvInFull, startInFull, get_iov_size_append, Int.toNat_natCast,
    Int.not_ofNat_neg, if_false]
  rfl

theorem read_turn (file : File) (bytes : Nat → UInt8) (behind : List Iovec) {left : List Iovec}
    (place done : Nat) (rest : List HostAnswer) (touched : List Range) (mapped : Mapped storeTarget left) (whole : iovBytes left ≤ most)
    (some_ : 0 < iovBytes left) :
    ∃ memory ranges, inFull preadv stopped (.moves most :: rest)
        ⟨left ++ behind, left.length, done, iovBytes left, place⟩ file bytes touched =
      if available file left place = 0 then ⟨some (stopped done), ⟨file, rest, ranges⟩, memory⟩
      else
        match shiftIovec (available file left place) (left ++ behind)
          ⟨left ++ behind, left.length, done, iovBytes left, place⟩ with
        | none => ⟨none, ⟨file, rest, ranges⟩, memory⟩
        | some next => inFull preadv stopped rest next file memory ranges := by
  have forward : ¬ ((place : Int) < 0) := by omega
  have moved : (preadv file bytes left place most).nr = available file left place :=
    call_moves mapped whole
  refine ⟨(preadv file bytes left place most).bytes,
    touched ++ [⟨place, available file left place⟩], ?_⟩
  simp only [inFull, some_.ne', if_false, forward, Int.toNat_natCast, List.take_left', moved]
  rfl

/-- An entry of which the file has a part only is never left. -/
theorem broken_entry_stuck {entry : Iovec} {rest : List Iovec} (behind : List Iovec)
    (place done : Nat) (mapped : Mapped storeTarget (entry :: rest)) (whole : iovBytes (entry :: rest) ≤ most)
    (some_ : 0 < available file (entry :: rest) place)
    (broken : available file (entry :: rest) place < entry.iovLen) (bytes : Nat → UInt8)
    (calls : Nat) (touched : List Range) :
    (inFull preadv stopped (List.replicate calls (.moves most))
      ⟨entry :: rest ++ behind, (entry :: rest).length, done, iovBytes (entry :: rest), place⟩
      file bytes touched).total = none := by
  have left : 0 < iovBytes (entry :: rest) := by
    unfold available at some_
    omega
  induction calls generalizing bytes touched with
  | zero => simp only [List.replicate_zero, inFull, left.ne', if_false]
  | succ calls ih =>
      obtain ⟨memory, ranges, turn⟩ := read_turn file bytes behind place done
        (List.replicate calls (.moves most)) touched mapped whole left
      rw [List.replicate_succ, turn, if_neg some_.ne', List.cons_append, shiftIovec,
        if_neg (Nat.not_le.mpr broken)]
      exact ih memory ranges

end Loop

/-! Prefixes. -/

section Prefixes
variable {data behind : List Iovec} {nr : Nat}

theorem take_bytes_le (count : Nat) (data : List Iovec) :
    iovBytes (data.take count) ≤ iovBytes data := by
  conv_rhs => rw [← List.take_append_drop count data, iov_bytes_append]
  exact Nat.le_add_right _ _

theorem shifted_inside {passed rest : List Iovec} {entry : Iovec} (part : nr < iovBytes data)
    (split : data ++ behind = passed ++ entry :: rest) (covered : iovBytes passed ≤ nr) :
    ∃ left, data = passed ++ entry :: left ∧ rest = left ++ behind := by
  rcases List.append_eq_append_iff.mp split with ⟨beyond, first, _⟩ | ⟨left, first, second⟩
  · rw [first, iov_bytes_append] at covered
    omega
  · cases left with
    | nil =>
        rw [List.append_nil] at first
        rw [first] at part
        omega
    | cons head tail =>
        rw [List.cons_append, List.cons.injEq] at second
        exact ⟨tail, second.1 ▸ first, second.2⟩

theorem boundary_passed {passed left : List Iovec} {entry : Iovec} {count : Nat}
    (split : data = passed ++ entry :: left) (boundary : iovBytes (data.take count) = nr)
    (covered : iovBytes passed ≤ nr) (broken : nr < iovBytes passed + entry.iovLen) :
    iovBytes passed = nr := by
  rw [split, List.take_append, iov_bytes_append] at boundary
  by_cases early : count ≤ passed.length
  · have none : count - passed.length = 0 := by omega
    rw [none, List.take_zero, iovBytes] at boundary
    have part := take_bytes_le count passed
    omega
  · obtain ⟨more, further⟩ : ∃ more, count - passed.length = more + 1 :=
      ⟨count - passed.length - 1, by omega⟩
    rw [further, List.take_succ_cons, iovBytes, List.take_of_length_le (by omega)] at boundary
    omega

end Prefixes

/-! The function. -/

section Function
variable {file : File} {bytes : Nat → UInt8} {data behind : List Iovec} {offset most : Nat}

theorem first_shift (behind : List Iovec) (part : available file data offset < iovBytes data) :
    ∃ passed entry left, data = passed ++ entry :: left ∧
      iovBytes passed ≤ available file data offset ∧
      available file data offset < iovBytes passed + entry.iovLen ∧
      shiftIovec (available file data offset) (data ++ behind)
          ⟨data ++ behind, data.length, 0, iovBytes data, offset⟩ =
        some ⟨entry :: left ++ behind, (entry :: left).length, iovBytes passed,
          iovBytes (entry :: left), (offset + iovBytes passed : Nat)⟩ := by
  obtain ⟨next, shifted⟩ : ∃ next, shiftIovec (available file data offset) (data ++ behind)
      ⟨data ++ behind, data.length, 0, iovBytes data, offset⟩ = some next := by
    apply shift_stops
    rw [iov_bytes_append]
    omega
  have iov_ : (⟨data ++ behind, data.length, 0, iovBytes data, offset⟩ : Place).iov =
    data ++ behind := rfl
  obtain ⟨passed, entry, rest, split, covered, broken, place⟩ := shift_iovec_spec iov_ shifted
  obtain ⟨left, whole, rfl⟩ := shifted_inside part split covered
  refine ⟨passed, entry, left, whole, covered, broken, ?_⟩
  have length : data.length = passed.length + (entry :: left).length := by
    rw [whole, List.length_append]
  have bytes : iovBytes data = iovBytes passed + iovBytes (entry :: left) := by
    rw [whole, iov_bytes_append]
  rw [shifted, place, Option.some.injEq, Place.mk.injEq]
  refine ⟨rfl, ?_, Nat.zero_add _, ?_, ?_⟩
  · dsimp only
    omega
  · dsimp only
    omega
  · dsimp only
    omega

theorem all_shifted (stops : 0 < iovBytes behind) (all : available file data offset = iovBytes data) :
    ∃ next, shiftIovec (available file data offset) (data ++ behind)
        ⟨data ++ behind, data.length, 0, iovBytes data, offset⟩ = some next ∧
      next.count = 0 ∧ next.total = available file data offset := by
  obtain ⟨next, shifted⟩ : ∃ next, shiftIovec (available file data offset) (data ++ behind)
      ⟨data ++ behind, data.length, 0, iovBytes data, offset⟩ = some next := by
    apply shift_stops
    rw [iov_bytes_append]
    omega
  have iov_ : (⟨data ++ behind, data.length, 0, iovBytes data, offset⟩ : Place).iov =
    data ++ behind := rfl
  obtain ⟨passed, entry, rest, split, covered, broken, place⟩ := shift_iovec_spec iov_ shifted
  have passed_all : iovBytes passed = iovBytes data := by
    rcases List.append_eq_append_iff.mp split with ⟨beyond, first, _⟩ | ⟨left, first, second⟩
    · rw [first, iov_bytes_append] at covered ⊢
      omega
    · cases left with
      | nil => rw [first, List.append_nil]
      | cons head tail =>
          rw [List.cons_append, List.cons.injEq] at second
          have bytes := congrArg iovBytes first
          rw [iov_bytes_append, iovBytes, ← second.1] at bytes
          omega
  refine ⟨next, shifted, ?_, ?_⟩
  · rw [place]
    dsimp only
    omega
  · rw [place]
    dsimp only
    omega

theorem left_available (file : File) (offset : Nat) {passed left : List Iovec} (split : data = passed ++ left)
    (covered : iovBytes passed ≤ available file data offset) :
    available file left (offset + iovBytes passed) =
      available file data offset - iovBytes passed := by
  unfold available at covered ⊢
  rw [split, iov_bytes_append] at covered ⊢
  omega

theorem ends_returned (mapped : Mapped storeTarget data) (whole : iovBytes data ≤ most)
    (ends : EndsBetween file data behind offset) :
    Returns file bytes data behind offset most (reported file data offset) := by
  obtain ⟨⟨count, boundary⟩, beyond⟩ := ends
  by_cases empty : iovBytes data = 0
  · refine ⟨0, ?_⟩
    have none : available file data offset = 0 := by
      unfold available
      omega
    rw [started, List.replicate_zero, inFull, if_pos empty]
    simp [reported, empty, none]
  · have some_ : 0 < iovBytes data := by omega
    by_cases nothing : available file data offset = 0
    · refine ⟨1, ?_⟩
      obtain ⟨memory, ranges, turn⟩ := read_turn file bytes behind offset 0 [] [] mapped whole some_
      rw [started, List.replicate_one, turn, if_pos nothing]
      simp [reported, nothing, some_, stopped]
    · have positive : 0 < available file data offset := by omega
      have reports : reported file data offset = (available file data offset : Nat) :=
        if_neg fun both => nothing both.1
      have counts : stopped (available file data offset) = (available file data offset : Nat) :=
        if_pos positive
      by_cases all : available file data offset = iovBytes data
      · refine ⟨1, ?_⟩
        obtain ⟨memory, ranges, turn⟩ :=
          read_turn file bytes behind offset 0 [] [] mapped whole some_
        obtain ⟨next, shifted, none, sum⟩ := all_shifted (beyond some_ all) all
        rw [started, List.replicate_one, turn, if_neg nothing, shifted]
        simp only [inFull, none, if_true, sum, reports]
      · have part : available file data offset < iovBytes data :=
          Nat.lt_of_le_of_ne (Nat.min_le_left _ _) all
        obtain ⟨passed, entry, left, split, covered, broken, shifted⟩ := first_shift behind part
        have exact_ := boundary_passed split boundary covered broken
        have rest_mapped : Mapped storeTarget (entry :: left) :=
          fun e member => mapped e (by rw [split]; exact List.mem_append_right _ member)
        have left_whole : iovBytes (entry :: left) ≤ most := by
          rw [split, iov_bytes_append] at whole
          omega
        have left_some : 0 < iovBytes (entry :: left) := by
          rw [iovBytes]
          omega
        have none := left_available file offset split covered
        rw [exact_, Nat.sub_self] at none
        refine ⟨2, ?_⟩
        obtain ⟨memory, ranges, turn⟩ := read_turn file bytes behind offset 0 [.moves most] []
          mapped whole some_
        obtain ⟨_, _, last⟩ := read_turn file memory behind
          (offset + available file data offset) (available file data offset) [] ranges rest_mapped
          left_whole left_some
        have two : List.replicate 2 (HostAnswer.moves most) = [.moves most, .moves most] := rfl
        rw [started, two, turn, if_neg nothing, shifted]
        simp only [exact_]
        rw [last, if_pos none, reports, counts]

theorem inside_never_returns (mapped : Mapped storeTarget data) (whole : iovBytes data ≤ most)
    (inside : ¬ EndsBetween file data behind offset) (result : Int) :
    ¬ Returns file bytes data behind offset most result := by
  rintro ⟨calls, returned⟩
  have some_ : 0 < iovBytes data := by
    by_contra none
    apply inside
    have nothing : available file data offset = 0 := by
      unfold available
      omega
    exact ⟨⟨0, by rw [List.take_zero, nothing]; rfl⟩, fun positive => absurd positive none⟩
  have nothing : available file data offset ≠ 0 := by
    intro none
    apply inside
    exact ⟨⟨0, by rw [List.take_zero, none]; rfl⟩, fun _ all => by omega⟩
  rw [started] at returned
  cases calls with
  | zero =>
      rw [List.replicate_zero, inFull, if_neg some_.ne'] at returned
      cases returned
  | succ calls =>
      obtain ⟨memory, ranges, turn⟩ := read_turn file bytes behind offset 0
        (List.replicate calls (.moves most)) [] mapped whole some_
      rw [List.replicate_succ, turn, if_neg nothing] at returned
      by_cases all : available file data offset = iovBytes data
      · have off : iovBytes behind = 0 := by
          by_contra positive
          apply inside
          exact ⟨⟨data.length, by rw [List.take_length, all]⟩, fun _ _ => by omega⟩
        rw [shift_off (by rw [iov_bytes_append]; omega)] at returned
        cases returned
      · have part : available file data offset < iovBytes data :=
          Nat.lt_of_le_of_ne (Nat.min_le_left _ _) all
        obtain ⟨passed, entry, left, split, covered, broken, shifted⟩ := first_shift behind part
        have short : iovBytes passed ≠ available file data offset := by
          intro same
          apply inside
          refine ⟨⟨passed.length, ?_⟩, fun _ whole_ => absurd whole_ all⟩
          rw [← same]
          conv_lhs => rw [split, List.take_left]
        have rest_mapped : Mapped storeTarget (entry :: left) :=
          fun e member => mapped e (by rw [split]; exact List.mem_append_right _ member)
        have left_whole : iovBytes (entry :: left) ≤ most := by
          rw [split, iov_bytes_append] at whole
          omega
        have remains := left_available file offset split covered
        have positive : 0 < available file (entry :: left) (offset + iovBytes passed) := by omega
        have breaks : available file (entry :: left) (offset + iovBytes passed) <
            entry.iovLen := by omega
        have never := broken_entry_stuck behind (offset + iovBytes passed) (iovBytes passed)
          rest_mapped left_whole positive breaks memory calls ranges
        rw [shifted] at returned
        rw [never] at returned
        cases returned

end Function

/-- A vectored read returns what the file has of its range exactly if the file ends between
two of its entries. -/
theorem vectored_read_returns_iff (file : File) (bytes : Nat → UInt8) (data behind : List Iovec)
    (offset most : Nat) (mapped : Mapped storeTarget data) (whole : iovBytes data ≤ most) :
    Returns file bytes data behind offset most (reported file data offset) ↔
      EndsBetween file data behind offset := by
  constructor
  · intro returned
    by_contra inside
    exact inside_never_returns mapped whole inside _ returned
  · exact ends_returned mapped whole

def segment (length : Nat) : Iovec := ⟨some ⟨0, true⟩, length⟩

def fileOf (size : Nat) : File := ⟨fun _ => 0, size, false⟩

theorem one_sector_returned :
    Returns (fileOf 512) (fun _ => 0) [segment 512, segment 512] [segment 1] 0 1024 512 :=
  (vectored_read_returns_iff (fileOf 512) (fun _ => 0) [segment 512, segment 512] [segment 1] 0
    1024 (by simp [Mapped, segment, storeTarget]) (by decide)).mpr ⟨⟨1, by decide⟩, by decide⟩

theorem half_page_never_returns : Mapped storeTarget [segment 512, segment 4096] ∧
    ∀ result, ¬ Returns (fileOf 2048) (fun _ => 0) [segment 512, segment 4096] [segment 1] 0 8192
      result := by
  have mapped : Mapped storeTarget [segment 512, segment 4096] := by
    simp [Mapped, segment, storeTarget]
  refine ⟨mapped, inside_never_returns mapped (by decide) ?_⟩
  rintro ⟨⟨count, boundary⟩, _⟩
  rcases count with _ | _ | count
  · exact absurd boundary (by decide)
  · exact absurd boundary (by decide)
  · rw [List.take_of_length_le (by simp)] at boundary
    exact absurd boundary (by decide)

end VirtioDisk.VectoredReads
