import Mathlib.Data.List.Basic
import Mathlib.Order.Lattice

/-!
Binary search trees whose entries have keys elsewhere, say in memory. A key that is
not there stops a walk. A tree is judged by the sequence of its entries in order,
which rebalancing must not change; colours are for the rebalancing alone.
-/

namespace VirtioDisk.SearchTree

inductive Colour where
  | red | black
  deriving DecidableEq

inductive Tree (Entry : Type) where
  | leaf
  | node (colour : Colour) (left : Tree Entry) (entry : Entry) (right : Tree Entry)

variable {Entry Key : Type}

def Tree.inorder : Tree Entry → List Entry
  | .leaf => []
  | .node _ left entry right => left.inorder ++ entry :: right.inorder

/-- Whatever rebalancing does, the entries stay in their order. -/
structure Rebalancing (Entry : Type) [DecidableEq Entry] where
  insertColor : Entry → Tree Entry → Tree Entry
  erase : Entry → Tree Entry → Tree Entry
  insert_inorder : ∀ entry tree, (insertColor entry tree).inorder = tree.inorder
  erase_inorder : ∀ entry tree, (erase entry tree).inorder = tree.inorder.erase entry

section Walks
variable [LinearOrder Key] (key : Entry → Option Key) (wanted : Key)

/-- `none` is a walk that was stopped. -/
def lookup : Tree Entry → Option (Option Entry)
  | .leaf => some none
  | .node _ left entry right =>
      match key entry with
      | none => none
      | some found =>
          if wanted < found then lookup left
          else if found < wanted then lookup right
          else some (some entry)

/-- The new entry is linked where the walk ends, unless there is one with its key. -/
def link (new : Entry) : Tree Entry → Option (Option (Tree Entry))
  | .leaf => some (some (.node .red .leaf new .leaf))
  | .node colour left entry right =>
      match key entry with
      | none => none
      | some found =>
          if wanted < found then
            (link new left).map (Option.map fun left => .node colour left entry right)
          else if found < wanted then
            (link new right).map (Option.map fun right => .node colour left entry right)
          else some none

/-- The entries in order have keys, and these grow. -/
structure Ordered (entries : List Entry) : Prop where
  keyed : ∀ entry ∈ entries, ∃ found, key entry = some found
  grows : entries.Pairwise fun first second =>
    ∀ one two, key first = some one → key second = some two → one < two

def below (entry : Entry) : Bool :=
  match key entry with
  | none => false
  | some found => decide (found < wanted)

end Walks

section Facts
variable [LinearOrder Key] {key : Entry → Option Key} {wanted found : Key} {entry : Entry}
  {left right : List Entry}

theorem Ordered.parts (ordered : Ordered key (left ++ entry :: right))
    (there : key entry = some found) :
    Ordered key left ∧ Ordered key right ∧
      (∀ other ∈ left, ∃ one, key other = some one ∧ one < found) ∧
      ∀ other ∈ right, ∃ one, key other = some one ∧ found < one := by
  obtain ⟨first, second, across⟩ := List.pairwise_append.mp ordered.grows
  obtain ⟨head, tail⟩ := List.pairwise_cons.mp second
  have inLeft {other : Entry} (member : other ∈ left) : ∃ one, key other = some one :=
    ordered.keyed other (List.mem_append_left _ member)
  have inRight {other : Entry} (member : other ∈ right) : ∃ one, key other = some one :=
    ordered.keyed other (List.mem_append_right _ (List.mem_cons_of_mem _ member))
  refine ⟨⟨fun _ => inLeft, first⟩, ⟨fun _ => inRight, tail⟩, ?_, ?_⟩
  · intro other member
    obtain ⟨one, here⟩ := inLeft member
    exact ⟨one, here, across other member entry List.mem_cons_self one found here there⟩
  · intro other member
    obtain ⟨one, here⟩ := inRight member
    exact ⟨one, here, head other member found one there here⟩

theorem below_iff (there : key entry = some found) :
    below key wanted entry = decide (found < wanted) := by
  rw [below, there]

theorem takeWhile_stopped {p : Entry → Bool} (left right : List Entry) (stops : ¬ p entry) :
    (left ++ entry :: right).takeWhile p = left.takeWhile p := by
  rw [List.takeWhile_append, List.takeWhile_cons_of_neg stops, List.append_nil]
  split
  · next whole => exact ((List.takeWhile_prefix p).eq_of_length whole).symm
  · rfl

theorem dropWhile_stopped {p : Entry → Bool} (left right : List Entry) (stops : ¬ p entry) :
    (left ++ entry :: right).dropWhile p = left.dropWhile p ++ entry :: right := by
  rw [List.dropWhile_append, List.dropWhile_cons_of_neg stops]
  split
  · next none => rw [List.isEmpty_iff.mp none, List.nil_append]
  · rfl

theorem lookup_find (tree : Tree Entry) (ordered : Ordered key tree.inorder) :
    lookup key wanted tree =
      some (tree.inorder.find? fun entry => decide (key entry = some wanted)) := by
  induction tree with
  | leaf => rfl
  | node colour left entry right inLeft inRight =>
      obtain ⟨found, there⟩ := ordered.keyed entry (by simp [Tree.inorder])
      obtain ⟨first, second, less, more⟩ := ordered.parts there
      have clear (entries : List Entry)
          (other : ∀ entry ∈ entries, ∃ one, key entry = some one ∧ one ≠ wanted) :
          entries.find? (fun entry => decide (key entry = some wanted)) = none := by
        rw [List.find?_eq_none]
        intro entry member
        obtain ⟨one, here, different⟩ := other entry member
        simp [here, different]
      simp only [lookup, there, Tree.inorder, List.find?_append, List.find?_cons, Option.some.injEq]
      rcases lt_trichotomy wanted found with before | same | behind
      · have none := clear right.inorder fun other member => by
          obtain ⟨one, here, above⟩ := more other member
          exact ⟨one, here, (before.trans above).ne'⟩
        rw [if_pos before, inLeft first, decide_eq_false before.ne', none]
        simp
      · subst same
        have none := clear left.inorder fun other member => by
          obtain ⟨one, here, under⟩ := less other member
          exact ⟨one, here, under.ne⟩
        rw [if_neg (lt_irrefl _), if_neg (lt_irrefl _), none]
        simp
      · have none := clear left.inorder fun other member => by
          obtain ⟨one, here, under⟩ := less other member
          exact ⟨one, here, (under.trans behind).ne⟩
        rw [if_neg behind.not_gt, if_pos behind, inRight second, decide_eq_false behind.ne, none]
        simp

/-- The entries with smaller keys stay in front of the new one, the others behind it. -/
theorem link_inorder (tree : Tree Entry) (new : Entry) (ordered : Ordered key tree.inorder)
    (missing : ∀ entry ∈ tree.inorder, key entry ≠ some wanted) :
    ∃ linked, link key wanted new tree = some (some linked) ∧
      linked.inorder = tree.inorder.takeWhile (below key wanted) ++
        new :: tree.inorder.dropWhile (below key wanted) := by
  induction tree with
  | leaf => exact ⟨_, rfl, rfl⟩
  | node colour left entry right inLeft inRight =>
      obtain ⟨found, there⟩ := ordered.keyed entry (by simp [Tree.inorder])
      obtain ⟨first, second, less, more⟩ := ordered.parts there
      have different : found ≠ wanted := by
        rintro rfl
        exact missing entry (by simp [Tree.inorder]) there
      simp only [link, there, Tree.inorder]
      rcases lt_or_gt_of_ne different with behind | before
      · obtain ⟨linked, links, sequence⟩ := inRight second fun other member =>
          missing other (by simp [Tree.inorder, member])
        have all : ∀ other ∈ left.inorder, below key wanted other := by
          intro other member
          obtain ⟨one, here, under⟩ := less other member
          rw [below_iff here]
          exact decide_eq_true (under.trans behind)
        have here : below key wanted entry := by
          rw [below_iff there]
          exact decide_eq_true behind
        refine ⟨.node colour left entry linked, ?_, ?_⟩
        · rw [if_neg behind.not_gt, if_pos behind, links]
          rfl
        · rw [List.takeWhile_append_of_pos all, List.dropWhile_append_of_pos all,
            List.takeWhile_cons_of_pos here, List.dropWhile_cons_of_pos here, Tree.inorder, sequence]
          simp
      · obtain ⟨linked, links, sequence⟩ := inLeft first fun other member =>
          missing other (by simp [Tree.inorder, member])
        have here : ¬ below key wanted entry := by
          rw [below_iff there]
          simpa using before.le
        refine ⟨.node colour linked entry right, ?_, ?_⟩
        · rw [if_pos before, links]
          rfl
        · rw [Tree.inorder, sequence, takeWhile_stopped _ _ here, dropWhile_stopped _ _ here,
            List.append_assoc, List.cons_append]

end Facts

end VirtioDisk.SearchTree
