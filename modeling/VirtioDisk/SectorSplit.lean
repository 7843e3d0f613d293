import VirtioDisk.ByteStore

/-!
Segments that follow each other on a disk, where the position is carried from one to
the next in whole units: what a segment has behind its last whole unit is lost for
those behind it. `reach` is how far from the start the segments get.
-/

namespace VirtioDisk.SectorSplit

open ByteStore

variable {α : Type} {unit : Nat}

/-- The items that a transfer from the disk finds. -/
def carried (unit : Nat) (disk : Nat → α) : Nat → List Range → List α
  | _, [] => []
  | start, entry :: rest =>
      readRange disk start entry.len ++ carried unit disk (start + entry.len / unit * unit) rest

/-- The disk after a transfer to it. -/
def laid (unit : Nat) (memory : Nat → α) : Nat → List Range → (Nat → α) → Nat → α
  | _, [], disk => disk
  | start, entry :: rest, disk =>
      laid unit memory (start + entry.len / unit * unit) rest
        (writeRange disk start (readRange memory entry.base entry.len))

/-- Nothing is lost: a segment with items behind it ends with a unit. -/
def Whole (unit : Nat) : List Range → Prop
  | [] => True
  | entry :: rest => (total rest ≠ 0 → unit ∣ entry.len) ∧ Whole unit rest

instance decidableWhole (unit : Nat) : (segments : List Range) → Decidable (Whole unit segments)
  | [] => inferInstanceAs (Decidable True)
  | entry :: rest =>
      have : Decidable (Whole unit rest) := decidableWhole unit rest
      inferInstanceAs (Decidable ((total rest ≠ 0 → unit ∣ entry.len) ∧ Whole unit rest))

def reach (unit : Nat) : List Range → Nat
  | [] => 0
  | entry :: rest =>
      max entry.len (if total rest = 0 then 0 else entry.len / unit * unit + reach unit rest)

theorem reach_none (unit : Nat) {segments : List Range} (none : total segments = 0) :
    reach unit segments = 0 ∧ Whole unit segments := by
  induction segments with
  | nil => exact ⟨rfl, trivial⟩
  | cons entry rest ih =>
      obtain ⟨here, later⟩ := Nat.add_eq_zero_iff.mp none
      obtain ⟨_, whole⟩ := ih later
      exact ⟨by simp [reach, here, later], fun some_ => absurd later some_, whole⟩

theorem whole_all {segments : List Range} (all : ∀ entry ∈ segments, unit ∣ entry.len) :
    Whole unit segments := by
  induction segments with
  | nil => trivial
  | cons entry rest ih =>
      constructor
      · exact fun _ => all entry (by simp)
      · exact ih fun other member => all other (by simp [member])

theorem reach_le (unit : Nat) (segments : List Range) : reach unit segments ≤ total segments := by
  induction segments with
  | nil => exact Nat.le_refl 0
  | cons entry rest ih =>
      have down := Nat.div_mul_le_self entry.len unit
      simp only [reach, total]
      split <;> omega

theorem reach_total_iff (segments : List Range) :
    reach unit segments = total segments ↔ Whole unit segments := by
  induction segments with
  | nil => exact iff_of_true rfl trivial
  | cons entry rest ih =>
      simp only [reach, total, Whole]
      by_cases none : total rest = 0
      · have last := (reach_none unit none).2
        simp [none, last]
      · have below := reach_le unit rest
        have down := Nat.div_mul_le_self entry.len unit
        have ends : entry.len / unit * unit = entry.len ↔ unit ∣ entry.len :=
          ⟨fun same => ⟨entry.len / unit, by rw [Nat.mul_comm, same]⟩, Nat.div_mul_cancel⟩
        rw [if_neg none, ← ih, ← ends]
        constructor
        · intro same
          exact ⟨fun _ => by omega, by omega⟩
        · rintro ⟨exact_, same⟩
          have here := exact_ none
          omega

/-! What a transfer finds. -/

theorem carried_length (unit : Nat) (disk : Nat → α) (start : Nat) (segments : List Range) :
    (carried unit disk start segments).length = total segments := by
  induction segments generalizing start with
  | nil => rfl
  | cons entry rest ih => simp [carried, total, ih]

theorem carried_whole (disk : Nat → α) (start : Nat) {segments : List Range}
    (whole : Whole unit segments) :
    carried unit disk start segments = readRange disk start (total segments) := by
  induction segments generalizing start with
  | nil => simp [carried, total, readRange]
  | cons entry rest ih =>
      obtain ⟨here, later⟩ := whole
      rw [carried, ih _ later, total, readRange_append]
      by_cases none : total rest = 0
      · rw [none]
        rfl
      · rw [Nat.div_mul_cancel (here none)]

/-- No item is from behind the reach. -/
theorem carried_below {disk : Nat → α} {start : Nat} {segments : List Range} {item : α}
    (member : item ∈ carried unit disk start segments) :
    ∃ address, address < start + reach unit segments ∧ item = disk address := by
  induction segments generalizing start with
  | nil => cases member
  | cons entry rest ih =>
      rw [carried] at member
      rw [reach]
      rcases List.mem_append.mp member with here | later
      · obtain ⟨i, inside, same⟩ := List.getElem_of_mem here
        rw [getElem_readRange] at same
        rw [length_readRange] at inside
        exact ⟨start + i, by omega, same.symm⟩
      · have some_ : total rest ≠ 0 := by
          intro none
          have length := carried_length unit disk (start + entry.len / unit * unit) rest
          rw [none] at length
          rw [List.eq_nil_of_length_eq_zero length] at later
          cases later
        obtain ⟨address, below, same⟩ := ih later
        rw [if_neg some_]
        exact ⟨address, by omega, same⟩

/-! What a transfer leaves on the disk. -/

theorem laid_whole (memory : Nat → α) (start : Nat) {segments : List Range} (disk : Nat → α)
    (whole : Whole unit segments) :
    laid unit memory start segments disk = writeRange disk start (gather memory segments) := by
  induction segments generalizing start disk with
  | nil => simp [laid, gather]
  | cons entry rest ih =>
      obtain ⟨here, later⟩ := whole
      rw [laid, ih _ _ later, gather, writeRange_append, length_readRange]
      by_cases none : total rest = 0
      · have nothing : gather memory rest = [] := by
          apply List.eq_nil_of_length_eq_zero
          rw [length_gather, none]
        simp [nothing]
      · rw [Nat.div_mul_cancel (here none)]

theorem laid_none (memory : Nat → α) (start : Nat) {segments : List Range} (disk : Nat → α)
    (none : total segments = 0) : laid unit memory start segments disk = disk := by
  rw [laid_whole memory start disk (reach_none unit none).2]
  have nothing : gather memory segments = [] := by
    apply List.eq_nil_of_length_eq_zero
    rw [length_gather, none]
  rw [nothing, writeRange_nil]

theorem laid_beyond (memory : Nat → α) {start address : Nat} {segments : List Range}
    (disk : Nat → α) (beyond : start + reach unit segments ≤ address) :
    laid unit memory start segments disk address = disk address := by
  induction segments generalizing start disk with
  | nil => rfl
  | cons entry rest ih =>
      rw [reach] at beyond
      have here : writeRange disk start (readRange memory entry.base entry.len) address =
          disk address := by
        apply writeRange_outside
        rw [length_readRange]
        omega
      rw [laid]
      by_cases none : total rest = 0
      · rw [laid_none _ _ _ none, here]
      · rw [if_neg none] at beyond
        rw [ih _ (by omega), here]

/-- The last item of a list has a cell of its own, whatever cells the segments share. -/
theorem scatter_last {segments : List Range} (some_ : total segments ≠ 0) :
    ∃ address, ∀ (store : Nat → α) (items : List α), items.length = total segments →
      items.getLast? = some (scatter store segments items address) := by
  induction segments with
  | nil => exact absurd rfl some_
  | cons entry rest ih =>
      by_cases none : total rest = 0
      · simp only [total, none, Nat.add_zero] at some_ ⊢
        refine ⟨entry.base + (entry.len - 1), ?_⟩
        intro store items length
        have last : entry.len - 1 < items.length := by omega
        have whole : items.take entry.len = items := List.take_of_length_le (by omega)
        have nothing : items.drop entry.len = [] := List.drop_of_length_le (by omega)
        rw [scatter, whole, nothing, scatter_nil, writeRange_inside _ _ _ _ last,
          List.getLast?_eq_getElem?, length, List.getElem?_eq_getElem last]
      · obtain ⟨address, held⟩ := ih none
        refine ⟨address, ?_⟩
        intro store items length
        rw [total] at length
        have behind : (items.drop entry.len).length = total rest := by
          rw [List.length_drop]
          omega
        rw [scatter, ← held _ _ behind, List.getLast?_drop, if_neg (by omega)]

end VirtioDisk.SectorSplit
