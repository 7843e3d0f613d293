import Mathlib.Data.Nat.ModEq
import Mathlib.Data.List.Basic
import Mathlib.Logic.Function.Basic

/-!
A window of consecutive items in an array of cells that is reused. Item number
`base + i` of a stream lives in the cell `slot (base + i)`. Nothing is said of
the cells outside the window. `slot` is a parameter: a ring of `num` cells has
`slot k = k % num`, and two parties that disagree on `num` have two slots.
-/

namespace VirtioDisk.RingWindow

variable {α : Type}

def Window (slot : Nat → Nat) (cells : Nat → α) (base : Nat) (items : List α) : Prop :=
  ∀ i (inside : i < items.length), cells (slot (base + i)) = items[i]

def put (cells : Nat → α) (index : Nat) (item : α) : Nat → α :=
  Function.update cells index item

@[simp] theorem put_same (cells : Nat → α) (index : Nat) (item : α) :
    put cells index item index = item := by
  simp [put]

theorem put_other (cells : Nat → α) (index key : Nat) (item : α) (different : key ≠ index) :
    put cells index item key = cells key := by
  simp [put, different]

theorem window_nil (slot : Nat → Nat) (cells : Nat → α) (base : Nat) :
    Window slot cells base [] := by
  intro i inside
  simp at inside

theorem window_head (slot : Nat → Nat) {cells : Nat → α} {base : Nat} {item : α}
    {rest : List α} (window : Window slot cells base (item :: rest)) :
    cells (slot base) = item := by
  have first := window 0 (by simp)
  exact first

theorem window_tail {slot : Nat → Nat} {cells : Nat → α} {base : Nat} {item : α}
    {rest : List α} (window : Window slot cells base (item :: rest)) :
    Window slot cells (base + 1) rest := by
  intro i inside
  have shifted := window (i + 1) (by simpa using inside)
  have position : base + 1 + i = base + (i + 1) := by omega
  rw [position]
  simpa using shifted

/-- The cell behind the last item may be overwritten as long as no item of the
window lives in it; the window then grows by the new item. -/
theorem window_push {slot : Nat → Nat} {cells : Nat → α} {base : Nat} {items : List α}
    (window : Window slot cells base items) (item : α)
    (free : ∀ i < items.length, slot (base + i) ≠ slot (base + items.length)) :
    Window slot (put cells (slot (base + items.length)) item) base (items ++ [item]) := by
  intro i inside
  by_cases old : i < items.length
  · rw [put_other _ _ _ _ (free i old), List.getElem_append_left old]
    exact window i old
  · have last : i = items.length := by
      simp only [List.length_append, List.length_singleton] at inside
      omega
    subst i
    simp

theorem window_cells {slot : Nat → Nat} {cells cells' : Nat → α} {base : Nat} {items : List α}
    (window : Window slot cells base items)
    (same : ∀ i < items.length, cells' (slot (base + i)) = cells (slot (base + i))) :
    Window slot cells' base items := by
  intro i inside
  rw [same i inside]
  exact window i inside

-- Positions less than `num` apart never share a cell of a ring of `num` cells.
theorem mod_slot_free (num base count i : Nat) (room : count < num) (before : i < count) :
    (base + i) % num ≠ (base + count) % num := by
  intro same
  have congruent : i ≡ count [MOD num] := Nat.ModEq.add_left_cancel' base same
  have equal : i = count := Nat.ModEq.eq_of_lt_of_lt congruent (by omega) room
  omega

end VirtioDisk.RingWindow
