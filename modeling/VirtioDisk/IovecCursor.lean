import VirtioDisk.VectoredReads

/-!
The entries `shift_iovec` looks at, in the four functions that call it. What the host
moves is a schedule here, for the file does not matter; `looks` is ghost state, the index
and the value of `iovcnt` at each comparison with the length of an entry. The array
goes on behind the list, and the list of entries ends where the memory ends.
-/

namespace VirtioDisk.IovecCursor

open DescriptorChain (Iovec)
open ReadWrite (File HostAnswer HostCall Place getIovSize get_iov_size_append iovBytes)

structure Look where
  index : Nat
  iovcnt : Int
  deriving DecidableEq

/-- The variables of the loops; `index` is the entry that `iov` points to. -/
structure Cursor where
  iov : List Iovec
  index : Nat
  iovcnt : Int
  total : Nat
  count : Nat
  offset : Option Int
  looks : List Look

def Cursor.look (c : Cursor) : Cursor := { c with looks := c.looks ++ [⟨c.index, c.iovcnt⟩] }

/-- The body of the loop of `shift_iovec`. -/
def Cursor.pass (c : Cursor) (entry : Iovec) (rest : List Iovec) : Cursor :=
  { iov := rest
    index := c.index + 1
    iovcnt := c.iovcnt - 1
    total := c.total + entry.iovLen
    count := c.count - entry.iovLen
    offset := c.offset.map (· + entry.iovLen)
    looks := c.looks }

/-- With `false` the loop has come to the end of the memory. -/
def shiftIovec (nr : Nat) : List Iovec → Cursor → Cursor × Bool
  | [], c => (c, false)
  | entry :: rest, c =>
      if entry.iovLen ≤ nr then shiftIovec (nr - entry.iovLen) rest (c.look.pass entry rest)
      else (c.look, true)

structure Run where
  result : Option Int
  looks : List Look
  loopsEnd : Bool
  deriving DecidableEq

-- Without an offset the host goes on where the file stands.
def refused (offset : Option Int) : Bool := offset.any (· < 0)

def inFull (stopped : Nat → Int) : List HostAnswer → Cursor → Run
  | answers, c =>
      if c.count = 0 then ⟨some c.total, c.looks, true⟩
      else
        match answers with
        | [] => ⟨none, c.looks, true⟩
        | .again :: rest => inFull stopped rest c
        | .fails :: _ => ⟨some (stopped c.total), c.looks, true⟩
        | .moves most :: rest =>
            let nr := if refused c.offset then 0 else min most (iovBytes (c.iov.take c.iovcnt.toNat))
            if nr = 0 then ⟨some (stopped c.total), c.looks, true⟩
            else
              match shiftIovec nr c.iov c with
              | (next, true) => inFull stopped rest next
              | (next, false) => ⟨none, next.looks, false⟩

def startInFull (stopped : Nat → Int) (offset : Option Int) (iov : List Iovec) (iovcnt : Nat)
    (answers : List HostAnswer) : Run :=
  match getIovSize iov iovcnt with
  | none => ⟨none, [], false⟩
  | some count => inFull stopped answers ⟨iov, 0, iovcnt, 0, count, offset, []⟩

def readStopped (total : Nat) : Int := if total > 0 then total else -1
def writeStopped (_ : Nat) : Int := -1

def readvInFull := startInFull readStopped none
def writevInFull := startInFull writeStopped none
def preadvInFull (offset : Int) := startInFull readStopped (some offset)
def pwritevInFull (offset : Int) := startInFull writeStopped (some offset)

inductive Vectored where
  | readv
  | writev
  | preadv (offset : Int)
  | pwritev (offset : Int)

def Vectored.run : Vectored → List Iovec → Nat → List HostAnswer → Run
  | .readv => readvInFull
  | .writev => writevInFull
  | .preadv offset => preadvInFull offset
  | .pwritev offset => pwritevInFull offset

def Vectored.offset : Vectored → Option Int
  | .readv => none
  | .writev => none
  | .preadv offset => some offset
  | .pwritev offset => some offset

/-- Every look is at one of the first entries, the count stays above the negative numbers,
and each loop ends. -/
structure Bounded (length : Nat) (run : Run) : Prop where
  indices : ∀ look ∈ run.looks, look.index < length
  counts : ∀ look ∈ run.looks, 0 ≤ look.iovcnt
  ends : run.loopsEnd = true

/-- The entries a transfer of `nr` bytes does not cover. -/
def uncovered (nr : Nat) : List Iovec → List Iovec
  | [] => []
  | entry :: rest => if entry.iovLen ≤ nr then uncovered (nr - entry.iovLen) rest else entry :: rest

/-- No transfer of the schedule moves all the bytes of the entries that are left. -/
def LeavesBytes : List Iovec → List HostAnswer → Prop
  | _, [] => True
  | data, .again :: rest => LeavesBytes data rest
  | _, .fails :: _ => True
  | data, .moves most :: rest =>
      most = 0 ∨ most < iovBytes data ∧ LeavesBytes (uncovered most data) rest

section Shift
variable {length nr : Nat} {data behind : List Iovec} {c : Cursor}

/-- The cursor points to the first entry of `data`, the end of a list of `length` entries. -/
structure At (length : Nat) (data behind : List Iovec) (c : Cursor) : Prop where
  iov : c.iov = data ++ behind
  counted : c.iovcnt = data.length
  index : c.index + data.length = length
  count : c.count = iovBytes data

def Within (length : Nat) (looks : List Look) : Prop :=
  ∀ look ∈ looks, look.index < length ∧ 0 ≤ look.iovcnt

theorem uncovered_some (part : nr < iovBytes data) : 0 < iovBytes (uncovered nr data) := by
  induction data generalizing nr with
  | nil => exact absurd part (Nat.not_lt_zero nr)
  | cons entry rest ih =>
      rw [iovBytes] at part
      rw [uncovered]
      split
      · exact ih (by omega)
      · rw [iovBytes]
        omega

theorem at_pass {entry : Iovec} {rest : List Iovec}
    (here : At length (entry :: rest) behind c) :
    At length rest behind (c.look.pass entry (rest ++ behind)) := by
  obtain ⟨_, counted, index, count⟩ := here
  rw [List.length_cons] at counted index
  rw [iovBytes] at count
  constructor <;> simp only [Cursor.look, Cursor.pass] <;> omega

theorem at_look {entry : Iovec} {rest : List Iovec}
    (here : At length (entry :: rest) behind c) (within : Within length c.looks) :
    Within length c.look.looks := by
  intro look member
  obtain ⟨_, counted, index, _⟩ := here
  rw [List.length_cons] at counted index
  rcases List.mem_append.mp member with before | now
  · exact within look before
  · rw [List.mem_singleton.mp now]
    dsimp only
    omega

theorem looks_kept (nr : Nat) (iov : List Iovec) (c : Cursor) {look : Look}
    (member : look ∈ c.looks) : look ∈ (shiftIovec nr iov c).1.looks := by
  induction iov generalizing nr c with
  | nil => exact member
  | cons entry rest ih =>
      have still : look ∈ c.look.looks := List.mem_append_left _ member
      unfold shiftIovec
      split
      · exact ih _ _ still
      · exact still

theorem pass_allowed {entry : Iovec} {rest : List Iovec} (allowed : refused c.offset = false) :
    refused (c.look.pass entry rest).offset = false := by
  simp only [Cursor.look, Cursor.pass]
  cases place : c.offset with
  | none => rfl
  | some offset =>
      rw [place] at allowed
      simp only [refused, Option.any_some, Option.map_some, decide_eq_false_iff_not] at allowed ⊢
      omega

/-- A transfer of a part of the list stops at an entry of it. -/
theorem shift_part (here : At length data behind c) (within : Within length c.looks)
    (allowed : refused c.offset = false) (part : nr < iovBytes data) :
    ∃ next, shiftIovec nr (data ++ behind) c = (next, true) ∧
      At length (uncovered nr data) behind next ∧ Within length next.looks ∧
      refused next.offset = false := by
  induction data generalizing nr c with
  | nil => exact absurd part (Nat.not_lt_zero nr)
  | cons entry rest ih =>
      rw [iovBytes] at part
      rw [List.cons_append, shiftIovec, uncovered]
      by_cases fits : entry.iovLen ≤ nr
      · rw [if_pos fits, if_pos fits]
        exact ih (at_pass here) (at_look here within) (pass_allowed allowed) (by omega)
      · rw [if_neg fits, if_neg fits]
        exact ⟨c.look, rfl, ⟨here.iov, here.counted, here.index, here.count⟩,
          at_look here within, allowed⟩

/-- A transfer of all its bytes looks behind the list. -/
theorem shift_whole (here : At length data behind c) (whole : iovBytes data = nr)
    (ended : (shiftIovec nr (data ++ behind) c).2 = true) :
    ∃ look ∈ (shiftIovec nr (data ++ behind) c).1.looks, look.index = length := by
  induction data generalizing nr c with
  | nil =>
      cases behind with
      | nil => cases ended
      | cons entry rest =>
          have now : ⟨c.index, c.iovcnt⟩ ∈ c.look.looks := by simp [Cursor.look]
          refine ⟨⟨c.index, c.iovcnt⟩, ?_, here.index⟩
          rw [List.nil_append, shiftIovec]
          split
          · exact looks_kept _ _ _ now
          · exact now
  | cons entry rest ih =>
      rw [iovBytes] at whole
      rw [List.cons_append, shiftIovec, if_pos (by omega)] at ended ⊢
      exact ih (at_pass here) (by omega) ended

end Shift

section Loop
variable {stopped : Nat → Int} {length : Nat} {data behind : List Iovec} {c : Cursor}

theorem run_looks_kept (answers : List HostAnswer) (c : Cursor) {look : Look}
    (member : look ∈ c.looks) : look ∈ (inFull stopped answers c).looks := by
  induction answers generalizing c with
  | nil =>
      unfold inFull
      split <;> exact member
  | cons answer rest ih =>
      unfold inFull
      split
      · exact member
      · cases answer with
        | again => exact ih c member
        | fails => exact member
        | moves most =>
            dsimp only
            generalize (if refused c.offset = true then 0
              else min most (iovBytes (c.iov.take c.iovcnt.toNat))) = nr
            split
            · exact member
            · have kept := looks_kept nr c.iov c member
              split
              · rename_i last shifted
                rw [shifted] at kept
                exact ih last kept
              · rename_i last shifted
                rw [shifted] at kept
                exact kept

theorem within_bounded (within : Within length c.looks) (result : Option Int) :
    Bounded length ⟨result, c.looks, true⟩ :=
  ⟨fun look member => (within look member).1, fun look member => (within look member).2, rfl⟩

theorem not_run (answers : List HostAnswer) (none : iovBytes data = 0 ∨ refused c.offset = true)
    (here : At length data behind c) (within : Within length c.looks) :
    Bounded length (inFull stopped answers c) := by
  have kept := within_bounded within
  induction answers with
  | nil =>
      unfold inFull
      split <;> exact kept _
  | cons answer rest ih =>
      unfold inFull
      split
      · exact kept _
      · next some_ =>
          cases answer with
          | again => exact ih
          | fails => exact kept _
          | moves most =>
              rcases none with empty | refuses
              · exact absurd (here.count.trans empty) some_
              · simp only [refuses, if_true]
                exact kept _

/-- The bound holds just when the host never moves all that is left. -/
theorem loop_bounded_iff (answers : List HostAnswer) (here : At length data behind c)
    (within : Within length c.looks) (allowed : refused c.offset = false)
    (some_ : 0 < iovBytes data) :
    Bounded length (inFull stopped answers c) ↔ LeavesBytes data answers := by
  induction answers generalizing data c with
  | nil =>
      unfold inFull
      rw [if_neg (here.count ▸ some_.ne')]
      exact iff_of_true (within_bounded within _) trivial
  | cons answer rest ih =>
      have kept := within_bounded within
      unfold inFull
      rw [if_neg (here.count ▸ some_.ne')]
      cases answer with
      | again => exact ih here within allowed some_
      | fails => exact iff_of_true (kept _) trivial
      | moves most =>
          have given : c.iov.take c.iovcnt.toNat = data := by
            rw [here.iov, here.counted, Int.toNat_natCast, List.take_left']
            rfl
          simp only [allowed, given, Bool.false_eq_true, if_false, LeavesBytes]
          by_cases idle : most = 0
          · rw [idle, Nat.zero_min, if_pos rfl]
            exact iff_of_true (kept _) (Or.inl rfl)
          · by_cases part : most < iovBytes data
            · rw [Nat.min_eq_left (Nat.le_of_lt part), if_neg idle, here.iov]
              obtain ⟨next, shifted, there, inside, onward⟩ := shift_part here within allowed part
              rw [shifted]
              refine (ih there inside onward (uncovered_some part)).trans ?_
              exact ⟨fun leaves => Or.inr ⟨part, leaves⟩, fun leaves =>
                (leaves.resolve_left idle).2⟩
            · rw [Nat.min_eq_right (Nat.not_lt.mp part), if_neg some_.ne', here.iov]
              refine iff_of_false ?_ (fun leaves => part (leaves.resolve_left idle).1)
              intro bounded
              have beyond := shift_whole here rfl
              split at bounded
              · next last shifted =>
                  rw [shifted] at beyond
                  obtain ⟨look, member, index⟩ := beyond rfl
                  have inside := bounded.indices look (run_looks_kept rest last member)
                  omega
              · cases bounded.ends

end Loop

/-! The transfers over a file are runs of the cursor. -/

section Files
variable {c : Cursor} {place : Place}

structure Follows (c : Cursor) (place : Place) : Prop where
  iov : c.iov = place.iov
  iovcnt : c.iovcnt = place.iovcnt
  total : c.total = place.total
  count : c.count = place.count
  offset : c.offset = some place.offset

theorem shift_follows (nr : Nat) (iov : List Iovec) (follows : Follows c place) :
    match ReadWrite.shiftIovec nr iov place with
    | some next => ∃ last, shiftIovec nr iov c = (last, true) ∧ Follows last next
    | none => ∃ last, shiftIovec nr iov c = (last, false) := by
  induction iov generalizing nr c place with
  | nil => exact ⟨c, rfl⟩
  | cons entry rest ih =>
      rw [ReadWrite.shiftIovec, shiftIovec]
      by_cases fits : entry.iovLen ≤ nr
      · rw [if_pos fits, if_pos fits]
        apply ih
        obtain ⟨same, iovcnt, total, count, offset⟩ := follows
        constructor <;> simp [Cursor.look, Cursor.pass, iovcnt, total, count, offset]
      · rw [if_neg fits, if_neg fits]
        exact ⟨c.look, rfl, ⟨follows.iov, follows.iovcnt, follows.total, follows.count,
          follows.offset⟩⟩

/-- Some schedule has the cursor do what the loop does over a file. -/
theorem in_full_follows {call : HostCall}
    (given : ∀ file bytes iov offset most, (call file bytes iov offset most).nr ≤ iovBytes iov)
    (stopped : Nat → Int) (answers : List HostAnswer) (file : File) (bytes : Nat → UInt8)
    (touched : List ByteStore.Range) (follows : Follows c place) :
    ∃ schedule, (inFull stopped schedule c).result =
      (ReadWrite.inFull call stopped answers place file bytes touched).total := by
  induction answers generalizing c place file bytes touched with
  | nil =>
      refine ⟨[], ?_⟩
      unfold inFull ReadWrite.inFull
      rw [follows.count, follows.total]
      split <;> rfl
  | cons answer rest ih =>
      unfold ReadWrite.inFull
      by_cases finished : place.count = 0
      · refine ⟨[], ?_⟩
        unfold inFull
        rw [if_pos finished, if_pos (follows.count.trans finished), follows.total]
      · have some_ : ¬ c.count = 0 := follows.count ▸ finished
        have ended (answers : List HostAnswer) :
            (inFull stopped (.fails :: answers) c).result = some (stopped place.total) := by
          unfold inFull
          rw [if_neg some_, follows.total]
        rw [if_neg finished]
        cases answer with
        | again => exact ih file bytes touched follows
        | fails => exact ⟨[.fails], ended []⟩
        | moves most =>
            dsimp only
            by_cases negative : place.offset < 0
            · rw [if_pos negative]
              exact ⟨[.fails], ended []⟩
            · rw [if_neg negative]
              have less := given file bytes (place.iov.take place.iovcnt.toNat) place.offset.toNat
                most
              generalize call file bytes (place.iov.take place.iovcnt.toNat) place.offset.toNat
                most = moved at less ⊢
              by_cases idle : moved.nr = 0
              · rw [if_pos idle]
                exact ⟨[.fails], ended []⟩
              · rw [if_neg idle]
                have allowed : refused c.offset = false := by
                  rw [follows.offset]
                  simpa [refused] using Int.not_lt.mp negative
                have turn (answers : List HostAnswer) :
                    inFull stopped (.moves moved.nr :: answers) c =
                      match shiftIovec moved.nr place.iov c with
                      | (next, true) => inFull stopped answers next
                      | (next, false) => ⟨none, next.looks, false⟩ := by
                  rw [inFull, if_neg some_]
                  simp only [allowed, Bool.false_eq_true, if_false, follows.iov, follows.iovcnt,
                    Nat.min_eq_left less, idle]
                have step := shift_follows moved.nr place.iov follows
                split
                · next none =>
                    rw [none] at step
                    obtain ⟨last, shifted⟩ := step
                    refine ⟨[.moves moved.nr], ?_⟩
                    rw [turn, shifted]
                · next found =>
                    rw [found] at step
                    obtain ⟨last, shifted, there⟩ := step
                    obtain ⟨schedule, same⟩ := ih moved.file moved.bytes
                      (touched ++ [⟨place.offset.toNat, moved.nr⟩]) there
                    refine ⟨.moves moved.nr :: schedule, ?_⟩
                    rw [turn, shifted]
                    exact same

end Files

/-- The loop of `shift_iovec` stays among the entries of the list just when there is nothing
to move, the offset is refused, or no transfer moves all the bytes that are left. -/
theorem cursor_bounded_iff (call : Vectored) (data behind : List Iovec)
    (answers : List HostAnswer) :
    Bounded data.length (call.run (data ++ behind) data.length answers) ↔
      iovBytes data = 0 ∨ refused call.offset = true ∨ LeavesBytes data answers := by
  have start (stopped : Nat → Int) (offset : Option Int) :
      startInFull stopped offset (data ++ behind) data.length answers =
        inFull stopped answers ⟨data ++ behind, 0, data.length, 0, iovBytes data, offset, []⟩ := by
    rw [startInFull, get_iov_size_append]
  have here (offset : Option Int) : At data.length data behind
      ⟨data ++ behind, 0, data.length, 0, iovBytes data, offset, []⟩ :=
    ⟨rfl, rfl, Nat.zero_add _, rfl⟩
  have nothing (offset : Option Int) : Within data.length
      (Cursor.looks ⟨data ++ behind, 0, data.length, 0, iovBytes data, offset, []⟩) := by
    simp [Within]
  have each (stopped : Nat → Int) (offset : Option Int) : Bounded data.length
      (startInFull stopped offset (data ++ behind) data.length answers) ↔
        iovBytes data = 0 ∨ refused offset = true ∨ LeavesBytes data answers := by
    rw [start]
    by_cases idle : iovBytes data = 0 ∨ refused offset = true
    · exact iff_of_true (not_run answers idle (here offset) (nothing offset)) (by tauto)
    · rw [not_or, Bool.not_eq_true] at idle
      rw [loop_bounded_iff answers (here offset) (nothing offset) idle.2
        (Nat.pos_of_ne_zero idle.1)]
      simp only [idle.1, idle.2, false_or, Bool.false_eq_true]
  cases call with
  | readv => exact each readStopped none
  | writev => exact each writeStopped none
  | preadv offset => exact each readStopped (some offset)
  | pwritev offset => exact each writeStopped (some offset)

/-- One sector that the host moves at once: the entry behind the list is looked at. -/
theorem whole_sector_looks_behind :
    ¬ ∀ (call : Vectored) (data behind : List Iovec) (answers : List HostAnswer),
      Bounded data.length (call.run (data ++ behind) data.length answers) := by
  intro bounded
  have inside := (bounded (.preadv 0) [⟨none, 512⟩] [⟨none, 1⟩] [.moves 512]).indices ⟨1, 0⟩
    (by decide)
  exact absurd inside (by decide)

end VirtioDisk.IovecCursor
