import Mathlib.Algebra.Group.Nat.Defs
import VirtioDisk.Transition

/-!
The list of MMIO ranges of demu.c. A new range is compared with the registered ones
by its two end points only, so that a range that encloses another one is let in. As
long as none does the ranges are disjoint, and an address has one range at most.
-/

namespace VirtioDisk.MemorySpaces

open Transition

variable {Handler : Type}

structure Space (Handler : Type) where
  start : UInt64
  last : UInt64
  handler : Handler

def Space.covers (space : Space Handler) (addr : UInt64) : Bool :=
  space.start ≤ addr ∧ addr ≤ space.last

def demuFindSpace (head : List (Space Handler)) (addr : UInt64) : Option (Space Handler) :=
  head.find? fun space => space.covers addr

/-- `none` for -1. -/
def demuRegisterSpace (allocated : Bool) (head : List (Space Handler)) (start last : UInt64)
    (handler : Handler) : Option (List (Space Handler)) :=
  if (demuFindSpace head start).isSome ∨ (demuFindSpace head last).isSome then none
  else if allocated then some (⟨start, last, handler⟩ :: head)
  else none

/-- The end of the range that was removed, and what is left. -/
def demuDeregisterSpace (start : UInt64) :
    List (Space Handler) → Option UInt64 × List (Space Handler)
  | [] => (none, [])
  | space :: rest =>
      if start = space.start then (some space.last, rest)
      else
        let (last, left) := demuDeregisterSpace start rest
        (last, space :: left)

/-- `mapped` is what the hypervisor makes of the range. -/
def demuRegisterMemorySpace (allocated mapped : Bool) (memory : List (Space Handler))
    (start size : UInt64) (handler : Handler) : Int × List (Space Handler) :=
  match demuRegisterSpace allocated memory start (start + size - 1) handler with
  | none => (-1, memory)
  | some memory =>
      if mapped then (0, memory) else (-1, (demuDeregisterSpace start memory).2)

/-- The end that is unmapped, and what is left. -/
def demuDeregisterMemorySpace (memory : List (Space Handler)) (start : UInt64) :
    UInt64 × List (Space Handler) :=
  let (last, memory) := demuDeregisterSpace start memory
  (last.getD 0, memory)

inductive Call (Handler : Type) where
  | register (start size : UInt64) (handler : Handler) (allocated mapped : Bool)
  | deregister (start : UInt64)

def call (memory : List (Space Handler)) : Call Handler → List (Space Handler)
  | .register start size handler allocated mapped =>
      (demuRegisterMemorySpace allocated mapped memory start size handler).2
  | .deregister start => (demuDeregisterMemorySpace memory start).2

/-- No call of a run faults. -/
def step (memory : List (Space Handler)) (c : Call Handler) :
    Except Empty (List (Space Handler)) := .ok (call memory c)

def InDomain : Call Handler → Prop
  | .register start size _ _ _ => 1 ≤ size.toNat ∧ start.toNat + size.toNat ≤ 2 ^ 64
  | .deregister _ => True

instance (c : Call Handler) : Decidable (InDomain c) :=
  match c with
  | .register _ _ _ _ _ => inferInstanceAs (Decidable (_ ∧ _))
  | .deregister _ => inferInstanceAs (Decidable True)

/-! What a run keeps. -/

def Apart (first second : Space Handler) : Prop :=
  first.last < second.start ∨ second.last < first.start

instance (first second : Space Handler) : Decidable (Apart first second) :=
  inferInstanceAs (Decidable (_ ∨ _))

structure Sound (memory : List (Space Handler)) : Prop where
  disjoint : memory.Pairwise Apart
  found : ∀ other, other.Perm memory → ∀ addr space,
    demuFindSpace other addr = some space ↔ space ∈ memory ∧ space.covers addr

def CallKept (memory : List (Space Handler)) (c : Call Handler) : Prop :=
  Sound (call memory c) ∧
    match c with
    | .register start size handler allocated mapped =>
        (demuRegisterMemorySpace allocated mapped memory start size handler).1 ≠ 0 →
          call memory c = memory
    | .deregister start =>
        call memory c = memory.filter (fun space => space.start ≠ start) ∧
          ∀ space ∈ memory, space.start = start →
            (demuDeregisterMemorySpace memory start).1 = space.last

/-- A registration that gets through although the new range has an old one inside it. -/
def Encloses (memory : List (Space Handler)) : Call Handler → Prop
  | .register start size _ allocated mapped =>
      allocated = true ∧ mapped = true ∧ demuFindSpace memory start = none ∧
        demuFindSpace memory (start + size - 1) = none ∧
        ∃ space ∈ memory, start < space.start ∧ space.last < start + size - 1
  | .deregister _ => False

instance (memory : List (Space Handler)) (c : Call Handler) : Decidable (Encloses memory c) :=
  match c with
  | .register _ _ _ _ _ => inferInstanceAs (Decidable (_ ∧ _))
  | .deregister _ => inferInstanceAs (Decidable False)

/-- Ranges that are not empty and disjoint. -/
structure Filed (memory : List (Space Handler)) : Prop where
  whole : ∀ space ∈ memory, space.start ≤ space.last
  disjoint : memory.Pairwise Apart

section Lists
variable {memory other : List (Space Handler)} {space first second : Space Handler}
variable {start last addr : UInt64}

theorem covers_iff : space.covers addr = true ↔ space.start ≤ addr ∧ addr ≤ space.last := by
  simp [Space.covers]

theorem Apart.symm (apart : Apart first second) : Apart second first := Or.symm apart

theorem apart_one (apart : Apart first second) (here : first.covers addr) :
    ¬ second.covers addr := by
  rw [covers_iff] at here ⊢
  rcases apart with before | behind
  · grind
  · grind

theorem found_covers (found : demuFindSpace memory addr = some space) :
    space ∈ memory ∧ space.covers addr := by
  have here := List.find?_some found
  exact ⟨List.mem_of_find?_eq_some found, here⟩

theorem unfound (none : demuFindSpace memory addr = none) (member : space ∈ memory) :
    ¬ space.covers addr :=
  List.find?_eq_none.mp none space member

/-- Two ranges of the list that share an address are the same. -/
theorem covers_once (disjoint : memory.Pairwise Apart) (one : first ∈ memory)
    (two : second ∈ memory) (here : first.covers addr) (there : second.covers addr) :
    first = second := by
  have either : first = second ∨ Apart first second := by
    apply List.Pairwise.forall_of_forall_of_flip ?_ ?_ ?_ one two
    · exact fun _ _ => Or.inl rfl
    · exact disjoint.imp fun apart => Or.inr apart
    · exact disjoint.imp fun apart => Or.inr apart.symm
  rcases either with same | apart
  · exact same
  · exact absurd there (apart_one apart here)

theorem filed_sound (filed : Filed memory) : Sound memory := by
  refine ⟨filed.disjoint, ?_⟩
  intro other same addr space
  constructor
  · intro found
    obtain ⟨member, here⟩ := found_covers found
    exact ⟨same.mem_iff.mp member, here⟩
  · rintro ⟨member, here⟩
    cases found : demuFindSpace other addr with
    | none => exact absurd here (unfound found (same.mem_iff.mpr member))
    | some before =>
        obtain ⟨early, there⟩ := found_covers found
        rw [covers_once filed.disjoint (same.mem_iff.mp early) member there here]

theorem sound_nil : Filed ([] : List (Space Handler)) :=
  ⟨fun _ member => absurd member List.not_mem_nil, List.Pairwise.nil⟩

/-- What has a start of its own is removed alone. -/
theorem deregister_filter (filed : Filed memory) (start : UInt64) :
    (demuDeregisterSpace start memory).2 = memory.filter (fun space => space.start ≠ start) ∧
      ∀ space ∈ memory, space.start = start →
        (demuDeregisterSpace start memory).1 = some space.last := by
  induction memory with
  | nil => exact ⟨rfl, fun _ member => absurd member List.not_mem_nil⟩
  | cons head rest ih =>
      obtain ⟨apart, disjoint⟩ := List.pairwise_cons.mp filed.disjoint
      have later : Filed rest := ⟨fun space member => filed.whole space (by simp [member]), disjoint⟩
      obtain ⟨left, ends⟩ := ih later
      by_cases here : start = head.start
      · have others : ∀ space ∈ rest, space.start ≠ start := by
          intro space member same
          have whole := filed.whole space (by simp [member])
          have first := filed.whole head (by simp)
          have head_covers : head.covers start := by
            rw [covers_iff, here]
            exact ⟨UInt64.le_refl _, first⟩
          apply apart_one (apart space member) head_covers
          rw [covers_iff, ← same]
          exact ⟨UInt64.le_refl _, whole⟩
        simp only [demuDeregisterSpace, if_pos here]
        constructor
        · rw [List.filter_cons_of_neg (by simp [here])]
          exact (List.filter_eq_self.mpr fun space member => by
            simpa using others space member).symm
        · intro space member same
          rcases List.mem_cons.mp member with rfl | behind
          · rfl
          · exact absurd same (others space behind)
      · simp only [demuDeregisterSpace, if_neg here]
        constructor
        · rw [List.filter_cons_of_pos (by simpa using Ne.symm here), left]
        · intro space member same
          rcases List.mem_cons.mp member with rfl | behind
          · exact absurd same.symm here
          · exact ends space behind same

end Lists

/-! The calls. -/

section Calls
variable {memory : List (Space Handler)} {start size : UInt64} {handler : Handler}
variable {allocated mapped : Bool}

/-- The outcomes of a registration. Only the first one changes the list. -/
theorem register_cases (allocated mapped : Bool) (memory : List (Space Handler))
    (start size : UInt64) (handler : Handler) :
    (allocated = true ∧ mapped = true ∧ demuFindSpace memory start = none ∧
      demuFindSpace memory (start + size - 1) = none ∧
      demuRegisterMemorySpace allocated mapped memory start size handler =
        (0, ⟨start, start + size - 1, handler⟩ :: memory)) ∨
    (¬ (allocated = true ∧ mapped = true ∧ demuFindSpace memory start = none ∧
        demuFindSpace memory (start + size - 1) = none) ∧
      demuRegisterMemorySpace allocated mapped memory start size handler = (-1, memory)) := by
  by_cases taken : (demuFindSpace memory start).isSome ∨
      (demuFindSpace memory (start + size - 1)).isSome
  · right
    constructor
    · rintro ⟨_, _, first, last⟩
      rw [first, last] at taken
      simp at taken
    · simp only [demuRegisterMemorySpace, demuRegisterSpace, if_pos taken]
  · have free := not_or.mp taken
    simp only [Option.not_isSome_iff_eq_none] at free
    cases allocated with
    | false => exact Or.inr ⟨by simp, by simp [demuRegisterMemorySpace, demuRegisterSpace, taken]⟩
    | true =>
        cases mapped with
        | false =>
            exact Or.inr ⟨by simp, by
              simp [demuRegisterMemorySpace, demuRegisterSpace, taken, demuDeregisterSpace]⟩
        | true =>
            exact Or.inl ⟨rfl, rfl, free.1, free.2, by
              simp [demuRegisterMemorySpace, demuRegisterSpace, taken]⟩

/-- The end of a range in the domain does not come before its start. -/
theorem last_toNat (positive : 1 ≤ size.toNat) (fits : start.toNat + size.toNat ≤ 2 ^ 64) :
    (start + size - 1).toNat = start.toNat + size.toNat - 1 := by
  have one : (1 : UInt64).toNat = 1 := rfl
  have word := size.toNat_lt
  rw [UInt64.toNat_sub, UInt64.toNat_add, one]
  omega

/-- A new range whose end points are in no other is disjoint from those it does not enclose. -/
theorem new_apart {space : Space Handler} {last : UInt64} (below : ¬ space.covers start)
    (above : ¬ space.covers last) (open_ : ¬ (start < space.start ∧ space.last < last)) :
    Apart (⟨start, last, handler⟩ : Space Handler) space := by
  rw [covers_iff] at below above
  unfold Apart
  grind

theorem enclosed_meets {space : Space Handler} {last : UInt64} (whole : space.start ≤ space.last)
    (encloses : start < space.start ∧ space.last < last) :
    ¬ Apart (⟨start, last, handler⟩ : Space Handler) space := by
  unfold Apart
  grind

theorem call_filed {c : Call Handler} (filed : Filed memory) (domain : InDomain c)
    (open_ : ¬ Encloses memory c) : Filed (call memory c) := by
  cases c with
  | deregister start =>
      have left := (deregister_filter filed start).1
      have same : call memory (.deregister start) = memory.filter fun space => space.start ≠ start :=
        left
      rw [same]
      exact ⟨fun space member => filed.whole space (List.mem_of_mem_filter member),
        filed.disjoint.filter _⟩
  | register start size handler allocated mapped =>
      rcases register_cases allocated mapped memory start size handler with
        ⟨given, taken, first, last, added⟩ | ⟨_, unchanged⟩
      · simp only [call, added]
        constructor
        · intro space member
          rcases List.mem_cons.mp member with rfl | behind
          · have positive := domain.1
            have place := last_toNat domain.1 domain.2
            apply UInt64.le_iff_toNat_le.mpr
            dsimp only
            omega
          · exact filed.whole space behind
        · apply List.Pairwise.cons ?_ filed.disjoint
          intro space member
          apply new_apart (unfound first member) (unfound last member)
          exact fun inside => open_ ⟨given, taken, first, last, space, member, inside⟩
      · simp only [call, unchanged]
        exact filed

theorem call_kept_iff {c : Call Handler} (filed : Filed memory) (domain : InDomain c) :
    CallKept memory c ↔ ¬ Encloses memory c := by
  constructor
  · rintro ⟨sound, _⟩ encloses
    cases c with
    | deregister start => exact encloses
    | register start size handler allocated mapped =>
        obtain ⟨given, taken, first, last, space, member, inside⟩ := encloses
        rcases register_cases allocated mapped memory start size handler with
          ⟨_, _, _, _, added⟩ | ⟨refused, _⟩
        · have disjoint := sound.disjoint
          simp only [call, added] at disjoint
          have apart := (List.pairwise_cons.mp disjoint).1 space member
          exact enclosed_meets (filed.whole space member) inside apart
        · exact refused ⟨given, taken, first, last⟩
  · intro open_
    refine ⟨filed_sound (call_filed filed domain open_), ?_⟩
    cases c with
    | deregister start =>
        obtain ⟨left, ends⟩ := deregister_filter filed start
        refine ⟨left, ?_⟩
        intro space member same
        simp only [demuDeregisterMemorySpace, ends space member same, Option.getD_some]
    | register start size handler allocated mapped =>
        intro failed
        rcases register_cases allocated mapped memory start size handler with
          ⟨_, _, _, _, added⟩ | ⟨_, unchanged⟩
        · rw [added] at failed
          exact absurd rfl failed
        · simp only [call, unchanged]

end Calls

/-- The ranges are disjoint in every state of a run exactly if no registration gets through
that encloses a registered range. -/
theorem spaces_disjoint_iff (calls : List (Call Handler)) (domain : ∀ c ∈ calls, InDomain c) :
    Meets step CallKept [] calls ↔ Meets step (fun memory c => ¬ Encloses memory c) [] calls := by
  apply meets_congr Filed ?_ ?_ sound_nil
  · exact fun memory c member filed => call_kept_iff filed (domain c member)
  · exact fun memory c member filed open_ => call_filed filed (domain c member) open_

/-- Two windows of the size of a device, a page apart. -/
def apartCalls : List (Call Unit) :=
  [.register 0x2000000 0x200 () true true, .register 0x2001000 0x200 () true true,
    .deregister 0x2000000]

theorem apart_calls_disjoint : Meets step CallKept [] apartCalls := by
  apply (spaces_disjoint_iff apartCalls (by decide)).mpr
  exact ⟨by decide, by decide, by decide, trivial⟩

def enclosingCalls : List (Call Unit) :=
  [.register 0x2000200 0x200 () true true, .register 0x2000000 0x1000 () true true]

/-- A page is let in although a range inside it is registered. -/
theorem enclosing_let_in : (∀ c ∈ enclosingCalls, InDomain c) ∧
    ¬ Meets step CallKept [] enclosingCalls := by
  refine ⟨by decide, ?_⟩
  rintro ⟨_, ⟨sound, _⟩, _⟩
  exact absurd sound.disjoint (by decide)

end VirtioDisk.MemorySpaces
