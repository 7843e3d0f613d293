import Mathlib.Algebra.Group.Nat.Defs
import Mathlib.Data.List.Basic

/-!
Ranges of cells in an unbounded store, and lists of ranges. A store is a total
function of the address; `readRange` and `writeRange` move the content of one
range, `gather` and `scatter` that of a list of ranges taken in order. The
ranges of a list may overlap; a later one then wins, as in a copy loop.
-/

namespace VirtioDisk.ByteStore

variable {α : Type}

def readRange (store : Nat → α) (base len : Nat) : List α :=
  List.ofFn fun i : Fin len => store (base + i)

def writeRange (store : Nat → α) (base : Nat) (items : List α) : Nat → α :=
  fun address =>
    if inside : base ≤ address ∧ address - base < items.length then items[address - base]
    else store address

structure Range where
  base : Nat
  len : Nat
  deriving DecidableEq

def total : List Range → Nat
  | [] => 0
  | range :: rest => range.len + total rest

def gather (store : Nat → α) : List Range → List α
  | [] => []
  | range :: rest => readRange store range.base range.len ++ gather store rest

-- Items beyond the last range are dropped; ranges beyond the last item are not touched.
def scatter (store : Nat → α) : List Range → List α → Nat → α
  | [], _ => store
  | range :: rest, items =>
      scatter (writeRange store range.base (items.take range.len)) rest (items.drop range.len)

@[simp] theorem length_readRange (store : Nat → α) (base len : Nat) :
    (readRange store base len).length = len := by
  simp [readRange]

theorem getElem_readRange (store : Nat → α) (base len i : Nat)
    (inside : i < (readRange store base len).length) :
    (readRange store base len)[i] = store (base + i) := by
  simp [readRange]

@[simp] theorem writeRange_nil (store : Nat → α) (base : Nat) :
    writeRange store base [] = store := by
  funext address
  simp [writeRange]

theorem writeRange_inside (store : Nat → α) (base : Nat) (items : List α) (i : Nat)
    (inside : i < items.length) : writeRange store base items (base + i) = items[i] := by
  have offset : base + i - base = i := by omega
  simp [writeRange, offset, inside]

theorem writeRange_outside (store : Nat → α) (base : Nat) (items : List α) (address : Nat)
    (outside : address < base ∨ base + items.length ≤ address) :
    writeRange store base items address = store address := by
  unfold writeRange
  rw [dif_neg]
  omega

/-- A write carries over to a store that agrees, cell by cell. -/
theorem writeRange_congr {first second : Nat → α} (base : Nat) (items : List α) {address : Nat}
    (same : first address = second address) :
    writeRange first base items address = writeRange second base items address := by
  unfold writeRange
  split
  · rfl
  · exact same

/-- Every cell is either the written item or unchanged. -/
theorem writeRange_cases (store : Nat → α) (base : Nat) (items : List α) (address : Nat) :
    (∃ i, ∃ inside : i < items.length, address = base + i ∧
      writeRange store base items address = items[i]) ∨
    ((address < base ∨ base + items.length ≤ address) ∧
      writeRange store base items address = store address) := by
  by_cases outside : address < base ∨ base + items.length ≤ address
  · exact Or.inr ⟨outside, writeRange_outside store base items address outside⟩
  · have position : address = base + (address - base) := by omega
    have inside : address - base < items.length := by omega
    refine Or.inl ⟨address - base, inside, position, ?_⟩
    have written := writeRange_inside store base items (address - base) inside
    rwa [← position] at written

theorem readRange_writeRange (store : Nat → α) (base : Nat) (items : List α) :
    readRange (writeRange store base items) base items.length = items := by
  apply List.ext_getElem (by simp)
  intro i inside there
  rw [getElem_readRange]
  exact writeRange_inside store base items i there

theorem readRange_disjoint (store : Nat → α) (base len : Nat) (position : Nat) (items : List α)
    (apart : ∀ i < items.length, position + i < base ∨ base + len ≤ position + i) :
    readRange (writeRange store position items) base len = readRange store base len := by
  apply List.ext_getElem (by simp)
  intro i here _
  rw [length_readRange] at here
  rw [getElem_readRange, getElem_readRange]
  apply writeRange_outside
  by_cases before : base + i < position
  · exact Or.inl before
  · by_cases behind : position + items.length ≤ base + i
    · exact Or.inr behind
    · have hit := apart (base + i - position) (by omega)
      omega

theorem readRange_append (store : Nat → α) (base first second : Nat) :
    readRange store base (first + second) =
      readRange store base first ++ readRange store (base + first) second := by
  apply List.ext_getElem (by simp)
  intro i inside _
  rw [getElem_readRange]
  by_cases early : i < first
  · rw [List.getElem_append_left (by simpa using early), getElem_readRange]
  · rw [List.getElem_append_right (by simpa using early), getElem_readRange]
    congr 1
    simp only [length_readRange]
    omega

theorem readRange_take (store : Nat → α) (base len count : Nat) (inside : count ≤ len) :
    (readRange store base len).take count = readRange store base count := by
  rcases Nat.exists_eq_add_of_le inside with ⟨rest, sum⟩
  rw [sum, readRange_append]
  exact List.take_left' (by simp)

theorem readRange_drop (store : Nat → α) (base len count : Nat) (inside : count ≤ len) :
    (readRange store base len).drop count = readRange store (base + count) (len - count) := by
  rcases Nat.exists_eq_add_of_le inside with ⟨rest, sum⟩
  rw [sum, readRange_append, List.drop_left' (by simp), Nat.add_sub_cancel_left]

theorem writeRange_append (store : Nat → α) (base : Nat) (first second : List α) :
    writeRange store base (first ++ second) =
      writeRange (writeRange store base first) (base + first.length) second := by
  funext address
  rcases writeRange_cases store base (first ++ second) address with
    ⟨i, inside, position, value⟩ | ⟨outside, value⟩
  · rw [value, position]
    by_cases early : i < first.length
    · rw [writeRange_outside _ _ _ _ (Or.inl (by omega)), writeRange_inside _ _ _ _ early,
        List.getElem_append_left early]
    · have late : i - first.length < second.length := by
        simp only [List.length_append] at inside
        omega
      have shifted : base + i = base + first.length + (i - first.length) := by omega
      rw [shifted, writeRange_inside _ _ _ _ late, List.getElem_append_right (by omega)]
  · simp only [List.length_append] at outside
    rw [value, writeRange_outside _ _ _ _ (by omega), writeRange_outside _ _ _ _ (by omega)]

/-- Writing a longer list from the same base forgets what was written there before. -/
theorem writeRange_again (store : Nat → α) (base : Nat) (first second : List α)
    (longer : first.length ≤ second.length) :
    writeRange (writeRange store base first) base second = writeRange store base second := by
  funext address
  rcases writeRange_cases store base second address with
    ⟨i, inside, position, value⟩ | ⟨outside, value⟩
  · rw [value, position, writeRange_inside _ _ _ _ inside]
  · rw [value, writeRange_outside _ _ _ _ outside, writeRange_outside _ _ _ _ (by omega)]

@[simp] theorem length_gather (store : Nat → α) (ranges : List Range) :
    (gather store ranges).length = total ranges := by
  induction ranges with
  | nil => rfl
  | cons range rest ih => simp [gather, total, ih]

/-- Every item is that of some cell. -/
theorem gather_mem {store : Nat → α} {ranges : List Range} {item : α}
    (member : item ∈ gather store ranges) : ∃ address, item = store address := by
  induction ranges with
  | nil => cases member
  | cons range rest ih =>
      rcases List.mem_append.mp member with here | later
      · obtain ⟨i, inside, same⟩ := List.getElem_of_mem here
        rw [getElem_readRange] at same
        exact ⟨range.base + i, same.symm⟩
      · exact ih later

theorem gather_append (store : Nat → α) (first second : List Range) :
    gather store (first ++ second) = gather store first ++ gather store second := by
  induction first with
  | nil => rfl
  | cons range rest ih => simp [gather, ih]

@[simp] theorem scatter_nil (store : Nat → α) (ranges : List Range) :
    scatter store ranges [] = store := by
  induction ranges with
  | nil => rfl
  | cons range rest ih => simpa [scatter] using ih

def Range.Holds (range : Range) (address : Nat) : Prop :=
  range.base ≤ address ∧ address < range.base + range.len

theorem scatter_outside (store : Nat → α) (ranges : List Range) (items : List α) (address : Nat)
    (outside : ∀ range ∈ ranges, ¬ range.Holds address) :
    scatter store ranges items address = store address := by
  induction ranges generalizing store items with
  | nil => rfl
  | cons range rest ih =>
      obtain ⟨first, later⟩ := List.forall_mem_cons.mp outside
      rw [scatter, ih _ _ later]
      apply writeRange_outside
      unfold Range.Holds at first
      have cut : (items.take range.len).length ≤ range.len := List.length_take_le _ _
      omega

theorem scatter_append (store : Nat → α) (first second : List Range) (items : List α) :
    scatter store (first ++ second) items =
      scatter (scatter store first items) second (items.drop (total first)) := by
  induction first generalizing store items with
  | nil => simp [scatter, total]
  | cons range rest ih =>
      simp only [List.cons_append, scatter, total]
      rw [ih, List.drop_drop]

theorem scatter_take (store : Nat → α) (ranges : List Range) (items : List α) (count : Nat)
    (enough : total ranges ≤ count) :
    scatter store ranges (items.take count) = scatter store ranges items := by
  induction ranges generalizing store items count with
  | nil => rfl
  | cons range rest ih =>
      simp only [total] at enough
      have fits : min range.len count = range.len := by omega
      simp only [scatter, List.take_take, List.drop_take, fits]
      exact ih _ _ _ (by omega)

/-- A transfer that stopped inside the first range is forgotten when the ranges
are filled again from their start. -/
theorem scatter_again (store : Nat → α) (range : Range) (rest : List Range)
    (partly items : List α) (short : partly.length ≤ range.len)
    (shorter : partly.length ≤ items.length) :
    scatter (scatter store (range :: rest) partly) (range :: rest) items =
      scatter store (range :: rest) items := by
  have fits : partly.take range.len = partly := List.take_of_length_le short
  have none : partly.drop range.len = [] := List.drop_of_length_le short
  simp only [scatter, fits, none, scatter_nil]
  rw [writeRange_again]
  simp only [List.length_take]
  omega

/-! Little-endian numbers in a store of bytes. -/

def littleEndian (store : Nat → UInt8) (base : Nat) : Nat → Nat
  | 0 => 0
  | count + 1 => (store base).toNat + 256 * littleEndian store (base + 1) count

theorem littleEndian_congr {first second : Nat → UInt8} {base len : Nat}
    (same : ∀ i < len, first (base + i) = second (base + i)) :
    littleEndian first base len = littleEndian second base len := by
  induction len generalizing base with
  | zero => rfl
  | succ count ih =>
      have here : first base = second base := same 0 (by omega)
      have rest : littleEndian first (base + 1) count = littleEndian second (base + 1) count := by
        apply ih
        intro i inside
        have later := same (i + 1) (by omega)
        rwa [show base + 1 + i = base + (i + 1) by omega]
      rw [littleEndian, littleEndian, here, rest]

theorem littleEndian_lt (store : Nat → UInt8) (base len : Nat) :
    littleEndian store base len < 256 ^ len := by
  induction len generalizing base with
  | zero => simp [littleEndian]
  | succ count ih =>
      have byte := UInt8.toNat_lt (store base)
      have rest := ih (base + 1)
      rw [littleEndian, Nat.pow_succ]
      omega

theorem littleEndian_injective {first second : Nat → UInt8} {base len : Nat}
    (same : littleEndian first base len = littleEndian second base len) :
    ∀ i < len, first (base + i) = second (base + i) := by
  induction len generalizing base with
  | zero => simp
  | succ count ih =>
      have here := UInt8.toNat_lt (first base)
      have there := UInt8.toNat_lt (second base)
      rw [littleEndian, littleEndian] at same
      have low : (first base).toNat = (second base).toNat := by omega
      have high : littleEndian first (base + 1) count = littleEndian second (base + 1) count := by
        omega
      intro i below
      cases i with
      | zero => exact UInt8.toNat_inj.mp low
      | succ i =>
          have later := ih high i (by omega)
          rwa [show base + 1 + i = base + (i + 1) by omega] at later

def u16At (store : Nat → UInt8) (base : Nat) : UInt16 := UInt16.ofNat (littleEndian store base 2)
def u32At (store : Nat → UInt8) (base : Nat) : UInt32 := UInt32.ofNat (littleEndian store base 4)
def u64At (store : Nat → UInt8) (base : Nat) : UInt64 := UInt64.ofNat (littleEndian store base 8)

end VirtioDisk.ByteStore
