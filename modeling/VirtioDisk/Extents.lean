import VirtioDisk.ByteStore

/-!
Blocks of equal size in a store, and how many of a list of ranges use a block. A
range all of whose blocks are used once shares no byte with a range of another
list that counts as well.
-/

namespace VirtioDisk.Extents

open ByteStore

/-- The range has a byte in the block. -/
def touches (size index : Nat) (range : Range) : Bool :=
  0 < range.len ∧ range.base / size ≤ index ∧ index ≤ (range.base + range.len - 1) / size

def uses (size : Nat) (ranges : List Range) (index : Nat) : Nat :=
  ranges.countP (touches size index)

variable {size index address : Nat} {range other : Range} {ranges others : List Range}

theorem touches_holds (size : Nat) (holds : range.Holds address) :
    touches size (address / size) range := by
  unfold Range.Holds at holds
  have positive : 0 < range.len := by omega
  have first : range.base / size ≤ address / size := Nat.div_le_div_right holds.1
  have last : address / size ≤ (range.base + range.len - 1) / size :=
    Nat.div_le_div_right (by omega)
  simp [touches, positive, first, last]

theorem uses_append (size : Nat) (ranges others : List Range) (index : Nat) :
    uses size (ranges ++ others) index = uses size ranges index + uses size others index :=
  List.countP_append

theorem uses_member (member : range ∈ ranges) (here : touches size index range) :
    0 < uses size ranges index :=
  List.countP_pos_iff.mpr ⟨range, member, here⟩

theorem uses_none (none : uses size ranges index = 0) (member : range ∈ ranges) :
    ¬ touches size index range :=
  List.countP_eq_zero.mp none range member

/-- A block that is used once is used by one of two lists only. -/
theorem used_once (once : uses size ranges index + uses size others index ≤ 1)
    (member : range ∈ ranges) (here : touches size index range) (also : other ∈ others) :
    ¬ touches size index other := by
  have some_ := uses_member member here
  exact uses_none (by omega) also

theorem used_once_apart
    (once : ∀ index, touches size index range →
      uses size ranges index + uses size others index ≤ 1)
    (member : range ∈ ranges) (also : other ∈ others) (holds : range.Holds address) :
    ¬ other.Holds address := by
  intro shared
  have here := touches_holds size holds
  exact used_once (once _ here) member here also (touches_holds size shared)

end VirtioDisk.Extents
