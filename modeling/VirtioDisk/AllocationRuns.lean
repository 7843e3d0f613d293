import VirtioDisk.ClusterAllocator

/-!
Allocations one after the other, as the write path makes them for a table and for
clusters. A cluster that was handed out has a count, by which the later ones pass it by:
over a whole run, no cluster is handed out twice.
-/

namespace VirtioDisk.AllocationRuns

open ClusterAllocator NodeInvariants QcowNodes RefcountView
open QcowWrite (Machine)

section Apart
variable {s middle after : Image} {first second : UInt64 → Prop} {floor other : Nat}

theorem counted_apart (before : Counted floor s middle first)
    (behind : Counted other middle after second) (clustIdx : UInt64)
    (early : first clustIdx ∨ GrownAt s middle clustIdx) :
    ¬ (second clustIdx ∨ GrownAt middle after clustIdx) := by
  intro late
  have one := (before.moved.taken clustIdx early).2
  rw [(behind.moved.taken clustIdx late).1] at one
  exact absurd one (by decide)

theorem counted_free (before : Counted floor s middle first) {clustIdx : UInt64}
    (free : refcount middle clustIdx = 0) : refcount s clustIdx = 0 := by
  by_cases taken : first clustIdx ∨ GrownAt s middle clustIdx
  · exact (before.moved.taken clustIdx taken).1
  · exact (before.moved.others clustIdx taken).symm.trans free

end Apart

/-- Allocations of these sizes, until one fails. -/
def allocEach (m : Machine) : List Nat → Op (List UInt64)
  | [] => pure []
  | size :: rest => do
      let offset ← qcowAllocClusters m size true
      if offset = -1 then pure []
      else do
        let later ← allocEach m rest
        pure (offset :: later)

/-- Every step of every call. -/
def EachSound (m : Machine) : List Nat → Image → Prop
  | [], _ => True
  | size :: rest, s => SoundAlloc m size true s ∧
      After (qcowAllocClusters m size true) s fun offset s => offset ≠ -1 → EachSound m rest s

instance eachSoundDecidable (m : Machine) : ∀ sizes s, Decidable (EachSound m sizes s)
  | [], _ => .isTrue trivial
  | _ :: rest, _ =>
      have := eachSoundDecidable m rest
      inferInstanceAs (Decidable (_ ∧ After ..))

def Taken (s : Image) (handed : UInt64 × Nat) (clustIdx : UInt64) : Prop :=
  InRun s handed.1 handed.2 clustIdx

structure Handed (s after : Image) (sizes : List Nat) (offsets : List UInt64) : Prop where
  short : offsets.length ≤ sizes.length
  aligned : ∀ offset ∈ offsets, offset.toNat % s.clusterSize = 0
  free : ∀ handed ∈ offsets.zip sizes, ∀ clustIdx, Taken s handed clustIdx →
    refcount s clustIdx = 0
  apart : (offsets.zip sizes).Pairwise fun one two =>
    ∀ clustIdx, Taken s one clustIdx → ¬ Taken s two clustIdx
  counted : offsets.length = sizes.length → Counted 0 s after fun clustIdx =>
    ∃ handed ∈ offsets.zip sizes, Taken s handed clustIdx
  blocks : offsets.length = sizes.length → ∀ handed ∈ offsets.zip sizes, ∀ clustIdx,
    Taken s handed clustIdx → ¬ GrownAt s after clustIdx

section Runs
variable {m : Machine} {s middle after : Image} {size : Nat} {sizes : List Nat} {offset : UInt64}
  {offsets : List UInt64}

theorem handed_nothing (counted : sizes = [] → Counted 0 s after fun _ => False) :
    Handed s after sizes [] := by
  refine ⟨Nat.zero_le _, by simp, by simp, List.Pairwise.nil, fun all => ?_, by simp⟩
  refine (counted (List.length_eq_zero_iff.mp all.symm)).congr fun clustIdx => ?_
  simp

theorem taken_same (header : middle.header = s.header) (handed : UInt64 × Nat)
    (clustIdx : UInt64) : Taken middle handed clustIdx ↔ Taken s handed clustIdx := by
  unfold Taken InRun clustNum Image.clusterSize
  rw [header]

theorem Handed.cons (aligned : offset.toNat % s.clusterSize = 0)
    (first : Counted 0 s middle (InRun s offset size))
    (own : ∀ clustIdx, InRun s offset size clustIdx → ¬ GrownAt s middle clustIdx)
    (rest : Handed middle after sizes offsets) :
    Handed s after (size :: sizes) (offset :: offsets) := by
  have header := first.moved.header
  have free : ∀ handed ∈ offsets.zip sizes, ∀ clustIdx, Taken s handed clustIdx →
      refcount middle clustIdx = 0 := by
    intro handed member clustIdx taken
    exact rest.free handed member clustIdx ((taken_same header handed clustIdx).mpr taken)
  constructor
  · exact Nat.succ_le_succ rest.short
  · rintro other (_ | ⟨_, member⟩)
    · exact aligned
    · have same := rest.aligned other member
      rwa [Image.clusterSize, header] at same
  · rintro handed (_ | ⟨_, member⟩) clustIdx taken
    · exact (first.moved.taken clustIdx (.inl taken)).1
    · exact counted_free first (free handed member clustIdx taken)
  · refine List.Pairwise.cons ?_ (rest.apart.imp ?_)
    · intro handed member clustIdx early late
      have one := (first.moved.taken clustIdx (.inl early)).2
      rw [free handed member clustIdx late] at one
      exact absurd one (by decide)
    · intro one two apart clustIdx early late
      exact apart clustIdx ((taken_same header one clustIdx).mpr early)
        ((taken_same header two clustIdx).mpr late)
  · intro all
    refine (first.trans (rest.counted (Nat.succ.inj all))).congr fun clustIdx => ?_
    simp only [taken_same header, List.zip_cons_cons, List.mem_cons, exists_eq_or_imp]
    rfl
  · intro all handed member clustIdx taken grown
    have later := rest.counted (Nat.succ.inj all)
    rcases (first.moved.grown_trans later.moved).mp grown with early | late
    · rcases List.mem_cons.mp member with rfl | behind
      · exact own clustIdx taken early
      · have one := (first.moved.taken clustIdx (.inr early)).2
        rw [free handed behind clustIdx taken] at one
        exact absurd one (by decide)
    · rcases List.mem_cons.mp member with rfl | behind
      · exact counted_apart first later clustIdx (.inl taken) (.inr late)
      · exact rest.blocks (Nat.succ.inj all) handed behind clustIdx
          ((taken_same header handed clustIdx).mpr taken) late

end Runs

end VirtioDisk.AllocationRuns
