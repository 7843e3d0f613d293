import Mathlib.Data.Multiset.AddSub

/-!
Acquisitions and releases, in the order in which they happen. Replaying them
keeps what is held, as a multiset. A release of something that is not held has
no replay, so that a log with a replay releases nothing twice and nothing that
was never acquired.
-/

namespace VirtioDisk.Ledger

variable {Resource : Type} [DecidableEq Resource]

inductive Entry (Resource : Type) where
  | acquired (r : Resource)
  | released (r : Resource)
  deriving DecidableEq

def replay : Multiset Resource → List (Entry Resource) → Option (Multiset Resource)
  | held, [] => some held
  | held, .acquired r :: rest => replay (r ::ₘ held) rest
  | held, .released r :: rest => if r ∈ held then replay (held.erase r) rest else none

/-- Everything that was acquired has been released, once. -/
def Settled (log : List (Entry Resource)) : Prop := replay 0 log = some 0

instance (log : List (Entry Resource)) : Decidable (Settled log) :=
  inferInstanceAs (Decidable (replay 0 log = some 0))

theorem replay_append (held : Multiset Resource) (first second : List (Entry Resource)) :
    replay held (first ++ second) =
      (replay held first).bind fun middle => replay middle second := by
  induction first generalizing held with
  | nil => rfl
  | cons entry rest ih =>
      cases entry with
      | acquired r => exact ih (r ::ₘ held)
      | released r =>
          by_cases member : r ∈ held
          · simpa [replay, member] using ih (held.erase r)
          · simp [replay, member]

theorem replay_onward {held middle : Multiset Resource} {first : List (Entry Resource)}
    (replayed : replay held first = some middle) (second : List (Entry Resource)) :
    replay held (first ++ second) = replay middle second := by
  rw [replay_append, replayed, Option.bind_some]

@[simp] theorem replay_acquired (held : Multiset Resource) (r : Resource)
    (rest : List (Entry Resource)) :
    replay held (.acquired r :: rest) = replay (r ::ₘ held) rest := rfl

@[simp] theorem replay_released (held : Multiset Resource) (r : Resource)
    (rest : List (Entry Resource)) :
    replay (r ::ₘ held) (.released r :: rest) = replay held rest := by
  simp [replay]

theorem replay_unheld {held : Multiset Resource} {r : Resource} (missing : r ∉ held)
    (rest : List (Entry Resource)) : replay held (.released r :: rest) = none := by
  simp [replay, missing]

theorem replay_missing {held : Multiset Resource} {back : List Resource} {r : Resource}
    (named : r ∈ back) (missing : r ∉ held) : replay held (back.map .released) = none := by
  induction back generalizing held with
  | nil => cases named
  | cons first rest ih =>
      by_cases member : first ∈ held
      · rcases List.mem_cons.mp named with rfl | later
        · exact absurd member missing
        · have still : r ∉ held.erase first := fun kept => missing (Multiset.mem_of_mem_erase kept)
          simpa [replay, member] using ih later still
      · exact replay_unheld member _

theorem replay_lost {held : Multiset Resource} {first : List (Entry Resource)}
    (lost : replay held first = none) (second : List (Entry Resource)) :
    replay held (first ++ second) = none := by
  rw [replay_append, lost, Option.bind_none]

/-- What was acquired together can be released in any order. -/
theorem replay_releases (held : Multiset Resource) {given back : List Resource}
    (same : given.Perm back) :
    replay ((given : Multiset Resource) + held) (back.map .released) = some held := by
  induction back generalizing given with
  | nil =>
      cases same.eq_nil
      simp [replay]
  | cons r rest ih =>
      have content : (given : Multiset Resource) = r ::ₘ (rest : Multiset Resource) := by
        rw [Multiset.cons_coe]
        exact Multiset.coe_eq_coe.mpr same
      rw [content, Multiset.cons_add, List.map_cons, replay_released]
      exact ih (List.Perm.refl rest)

theorem replay_acquisitions (held : Multiset Resource) (taken : List Resource) :
    replay held (taken.map .acquired) = some ((taken : Multiset Resource) + held) := by
  induction taken generalizing held with
  | nil => simp [replay]
  | cons r rest ih =>
      rw [List.map_cons, replay_acquired, ih, ← Multiset.cons_coe, Multiset.cons_add,
        Multiset.add_cons]

/-- What a log leaves held. -/
def Holds (held : Multiset Resource) (log : List (Entry Resource)) : Prop :=
  replay 0 log = some held

theorem Holds.acquired {held : Multiset Resource} {log : List (Entry Resource)}
    (holds : Holds held log) (r : Resource) : Holds (r ::ₘ held) (log ++ [.acquired r]) :=
  replay_onward holds [.acquired r]

theorem Holds.released {held : Multiset Resource} {log : List (Entry Resource)} {r : Resource}
    (holds : Holds (r ::ₘ held) log) : Holds held (log ++ [.released r]) := by
  have replayed := replay_onward holds [.released r]
  rwa [replay_released] at replayed

theorem Holds.settled_iff {held : Multiset Resource} {log : List (Entry Resource)}
    (holds : Holds held log) : Settled log ↔ held = 0 := by
  rw [Settled, holds, Option.some.injEq]

end VirtioDisk.Ledger
