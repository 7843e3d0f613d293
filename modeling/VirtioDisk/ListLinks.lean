import Mathlib.Data.List.Chain
import Mathlib.Data.List.Nodup

/-!
linux/list.h: circular lists through the nodes themselves. Every operation reads and
writes pointers; on a list that is well linked it does what it does to the sequence of
the nodes, and no other node is written.
-/

namespace VirtioDisk.ListLinks

variable {Link : Type}

/-- `struct list_head` -/
structure ListHead (Link : Type) where
  next : Option Link
  prev : Option Link

/-- `none` is no list_head at all. -/
abbrev Lists (Link : Type) := Link → Option (ListHead Link)

namespace Lists

def nextAt (m : Lists Link) (p : Link) : Option Link := (m p).bind ListHead.next

def prevAt (m : Lists Link) (p : Link) : Option Link := (m p).bind ListHead.prev

variable [DecidableEq Link]

def put (m : Lists Link) (p : Link) (f : ListHead Link → ListHead Link) : Lists Link :=
  fun q => if q = p then (m q).map f else m q

/-- Through a null pointer, or where no list_head is, there is no write. -/
def write (m : Lists Link) (p : Option Link) (f : ListHead Link → ListHead Link) :
    Option (Lists Link) :=
  p.bind fun p => if (m p).isSome then some (m.put p f) else none

def setNext (m : Lists Link) (p next : Option Link) : Option (Lists Link) :=
  m.write p fun h => { h with next := next }

def setPrev (m : Lists Link) (p prev : Option Link) : Option (Lists Link) :=
  m.write p fun h => { h with prev := prev }

def deref (m : Lists Link) (p : Option Link) : Option (ListHead Link) := p.bind m

end Lists

section Operations
variable [DecidableEq Link] (m : Lists Link)

def initListHead (list : Option Link) : Option (Lists Link) := do
  let m ← m.setNext list list
  m.setPrev list list

def listAddBetween (new prev next : Option Link) : Option (Lists Link) := do
  let m ← m.setPrev next new
  let m ← m.setNext new next
  let m ← m.setPrev new prev
  m.setNext prev new

def listAddTail (new head : Option Link) : Option (Lists Link) := do
  listAddBetween m new (← m.deref head).prev head

def listDelBetween (prev next : Option Link) : Option (Lists Link) := do
  let m ← m.setPrev next prev
  m.setNext prev next

def listDelEntry (entry : Option Link) : Option (Lists Link) := do
  listDelBetween m (← m.deref entry).prev (← m.deref entry).next

def listDel (entry : Option Link) : Option (Lists Link) := do
  let m ← listDelEntry m entry
  let m ← m.setNext entry none
  m.setPrev entry none

def listDelInit (entry : Option Link) : Option (Lists Link) := do
  let m ← listDelEntry m entry
  initListHead m entry

def listMoveTail (list head : Option Link) : Option (Lists Link) := do
  let m ← listDelEntry m list
  listAddTail m list head

/-- `list_first_entry`, the head itself for an empty list -/
def listFirst (head : Option Link) : Option (Option Link) := (m.deref head).map ListHead.next

end Operations

/-! Lists that are well linked. -/

def Linked (m : Lists Link) (p q : Link) : Prop := m.nextAt p = some q ∧ m.prevAt q = some p

/-- From the head through the nodes and back. -/
structure Ring (m : Lists Link) (head : Link) (nodes : List Link) : Prop where
  once : (head :: nodes).Nodup
  linked : (head :: (nodes ++ [head])).IsChain (Linked m)

section Facts
variable {m after : Lists Link} {p q : Link} {head : Link} {nodes : List Link}

theorem present_of_next (linked : m.nextAt p = some q) : (m p).isSome := by
  rw [Lists.nextAt] at linked
  cases here : m p with
  | none =>
      rw [here] at linked
      cases linked
  | some => rfl

/-- A chain needs the forward pointers but of its end, and the backward ones but of its
beginning. -/
theorem chain_frame {list : List Link} (chain : list.IsChain (Linked m))
    (nexts : ∀ p ∈ list.dropLast, after.nextAt p = m.nextAt p)
    (prevs : ∀ p ∈ list.tail, after.prevAt p = m.prevAt p) : list.IsChain (Linked after) := by
  induction list with
  | nil => exact .nil
  | cons p list ih =>
      cases list with
      | nil => exact .singleton p
      | cons q list =>
          obtain ⟨⟨next, prev⟩, chain⟩ := List.isChain_cons_cons.mp chain
          refine List.isChain_cons_cons.mpr ⟨⟨?_, ?_⟩, ih chain ?_ ?_⟩
          · rw [nexts p (by simp), next]
          · rw [prevs q (by simp), prev]
          · exact fun r member => nexts r (List.mem_cons_of_mem _ member)
          · exact fun r member => prevs r (List.mem_cons_of_mem _ member)

theorem Ring.frame (ring : Ring m head nodes) (same : ∀ p ∈ head :: nodes, after p = m p) :
    Ring after head nodes := by
  refine ⟨ring.once, chain_frame ring.linked (fun p member => ?_) fun p member => ?_⟩
  · rw [← List.cons_append, List.dropLast_concat] at member
    rw [Lists.nextAt, same p member]
    rfl
  · rw [List.tail_cons, List.mem_append, List.mem_singleton] at member
    rw [Lists.prevAt, same p (by rcases member with inside | rfl <;> simp [*])]
    rfl

/-- The end of the ring and the way back. -/
theorem Ring.last (ring : Ring m head nodes) :
    ∃ front last, head :: nodes = front ++ [last] ∧ Linked m last head := by
  obtain ⟨front, last, split⟩ : ∃ front last, head :: nodes = front ++ [last] :=
    ⟨_, _, (List.dropLast_append_getLast (List.cons_ne_nil head nodes)).symm⟩
  have linked := ring.linked
  rw [← List.cons_append, split, List.append_assoc, List.cons_append, List.nil_append,
    List.isChain_append_cons_cons] at linked
  exact ⟨front, last, split, linked.2.1⟩

theorem Ring.first (ring : Ring m head nodes) :
    m.nextAt head = some (nodes.head?.getD head) := by
  have linked := ring.linked
  cases nodes with
  | nil => exact (List.isChain_cons_cons.mp linked).1.1
  | cons p nodes => exact (List.isChain_cons_cons.mp linked).1.1

theorem Ring.second (ring : Ring m head (p :: nodes)) :
    m.nextAt p = some (nodes.head?.getD head) := by
  have linked := (List.isChain_cons_cons.mp ring.linked).2
  cases nodes with
  | nil => exact (List.isChain_cons_cons.mp linked).1.1
  | cons q nodes => exact (List.isChain_cons_cons.mp linked).1.1

theorem listFirst_spec (ring : Ring m head nodes) :
    listFirst m (some head) = some (some (nodes.head?.getD head)) := by
  have next := ring.first
  rw [Lists.nextAt] at next
  obtain ⟨h, is, next⟩ := Option.bind_eq_some_iff.mp next
  have here : m.deref (some head) = some h := is
  rw [listFirst, here, Option.map_some, next]

theorem Ring.present (ring : Ring m head nodes) (inside : p ∈ head :: nodes) : (m p).isSome := by
  obtain ⟨front, back, split⟩ := List.append_of_mem inside
  have linked := ring.linked
  rw [← List.cons_append, split, List.append_assoc, List.cons_append] at linked
  cases back with
  | nil => exact present_of_next (List.isChain_append_cons_cons.mp linked).2.1.1
  | cons q back => exact present_of_next (List.isChain_append_cons_cons.mp linked).2.1.1

theorem deref_prev (there : (m p).isSome) :
    ∃ h, m.deref (some p) = some h ∧ h.prev = m.prevAt p ∧ h.next = m.nextAt p := by
  obtain ⟨h, is⟩ := Option.isSome_iff_exists.mp there
  exact ⟨h, is, by simp [Lists.prevAt, is], by simp [Lists.nextAt, is]⟩

end Facts

section Writes
variable [DecidableEq Link] {m : Lists Link} {p q : Link} {f : ListHead Link → ListHead Link}
  {target : Option Link}

theorem put_other (other : q ≠ p) : m.put p f q = m q := if_neg other

@[simp] theorem put_isSome : (m.put p f q).isSome = (m q).isSome := by
  rw [Lists.put]
  split <;> simp

theorem write_there (there : (m p).isSome) : m.write (some p) f = some (m.put p f) := if_pos there

theorem nextAt_setNext (there : (m p).isSome) :
    (m.put p fun h => { h with next := target }).nextAt q = if q = p then target else m.nextAt q := by
  obtain ⟨h, is⟩ := Option.isSome_iff_exists.mp there
  by_cases same : q = p
  · subst same
    simp [Lists.nextAt, Lists.put, is]
  · simp [Lists.nextAt, Lists.put, same]

theorem prevAt_setPrev (there : (m p).isSome) :
    (m.put p fun h => { h with prev := target }).prevAt q = if q = p then target else m.prevAt q := by
  obtain ⟨h, is⟩ := Option.isSome_iff_exists.mp there
  by_cases same : q = p
  · subst same
    simp [Lists.prevAt, Lists.put, is]
  · simp [Lists.prevAt, Lists.put, same]

@[simp] theorem nextAt_setPrev : (m.put p fun h => { h with prev := target }).nextAt q = m.nextAt q := by
  rw [Lists.nextAt, Lists.nextAt, Lists.put]
  split
  · cases m q <;> rfl
  · rfl

@[simp] theorem prevAt_setNext : (m.put p fun h => { h with next := target }).prevAt q = m.prevAt q := by
  rw [Lists.prevAt, Lists.prevAt, Lists.put]
  split
  · cases m q <;> rfl
  · rfl

end Writes

/-! What the operations do to the sequence. -/

section Sequences
variable [DecidableEq Link] {m : Lists Link} {head new entry : Link} {nodes : List Link}

theorem initListHead_spec (there : (m new).isSome) :
    ∃ after, initListHead m (some new) = some after ∧ Ring after new [] ∧
      (∀ q, (after q).isSome = (m q).isSome) ∧ ∀ q, q ≠ new → after q = m q := by
  let first := m.put new fun h => { h with next := some new }
  let after := first.put new fun h => { h with prev := some new }
  have middle : (first new).isSome := by rwa [put_isSome]
  refine ⟨after, ?_, ⟨by simp, ?_⟩, fun q => ?_, fun q other => ?_⟩
  · simp only [initListHead, bind, Lists.setNext, Lists.setPrev, write_there there,
      Option.bind_some]
    exact write_there middle
  · refine List.isChain_pair.mpr ⟨?_, ?_⟩
    · rw [nextAt_setPrev, nextAt_setNext there, if_pos rfl]
    · rw [prevAt_setPrev middle, if_pos rfl]
  · rw [put_isSome, put_isSome]
  · exact (put_other other).trans (put_other other)

theorem listAddTail_spec (ring : Ring m head nodes) (fresh : new ∉ head :: nodes)
    (there : (m new).isSome) :
    ∃ after, listAddTail m (some new) (some head) = some after ∧ Ring after head (nodes ++ [new]) ∧
      (∀ q, (after q).isSome = (m q).isSome) ∧ ∀ q ∉ head :: (nodes ++ [new]), after q = m q := by
  obtain ⟨front, last, split, _, back⟩ := ring.last
  have lastInside : last ∈ head :: nodes := by simp [split]
  have lastOther : new ≠ last := fun same => fresh (same ▸ lastInside)
  have headOther : head ≠ new := fun same => fresh (by simp [same])
  have headThere := ring.present (p := head) (by simp)
  obtain ⟨h, isHead, prev, _⟩ := deref_prev headThere
  let first := m.put head fun h => { h with prev := some new }
  let second := first.put new fun h => { h with next := some head }
  let third := second.put new fun h => { h with prev := some last }
  let after := third.put last fun h => { h with next := some new }
  have firstThere : (first new).isSome := by rwa [put_isSome]
  have secondThere : (second new).isSome := by rwa [put_isSome]
  have thirdThere : (third last).isSome := by
    simpa only [third, second, first, put_isSome] using ring.present lastInside
  have nexts (q : Link) : after.nextAt q =
      if q = last then some new else if q = new then some head else m.nextAt q := by
    simp only [after, third, second, first, nextAt_setNext thirdThere, nextAt_setPrev,
      nextAt_setNext firstThere]
  have prevs (q : Link) : after.prevAt q =
      if q = new then some last else if q = head then some new else m.prevAt q := by
    simp only [after, third, second, first, prevAt_setPrev secondThere, prevAt_setNext,
      prevAt_setPrev headThere]
  refine ⟨after, ?_, ⟨?_, ?_⟩, fun q => ?_, fun q away => ?_⟩
  · simp only [listAddTail, bind, isHead, Option.bind_some, prev, back, listAddBetween,
      Lists.setPrev, Lists.setNext, write_there headThere]
    rw [write_there firstThere, Option.bind_some, write_there secondThere, Option.bind_some,
      write_there thirdThere]
  · have apart := List.nodup_append.mpr ⟨ring.once, List.nodup_singleton new, ?_⟩
    · exact apart
    · intro p inside q same equal
      rw [List.mem_singleton.mp same] at equal
      exact fresh (equal ▸ inside)
  · have linked := ring.linked
    have once := ring.once
    rw [← List.cons_append, split, List.append_assoc] at linked
    rw [split] at once
    have tail : (front ++ [last]).tail = nodes := by rw [← split, List.tail_cons]
    have whole : head :: (nodes ++ [new] ++ [head]) = front ++ last :: new :: [head] := by
      rw [← List.cons_append, ← List.cons_append, split]
      simp
    rw [whole, List.isChain_append_cons_cons, List.isChain_pair]
    refine ⟨chain_frame (List.isChain_append_cons_cons.mp linked).1 ?_ ?_, ⟨?_, ?_⟩, ?_, ?_⟩
    · rw [List.dropLast_concat]
      intro q member
      have notLast : q ≠ last := fun same => by
        obtain ⟨_, _, apart⟩ := List.nodup_append.mp once
        exact apart q member last (by simp) same
      have notNew : q ≠ new := fun same => fresh (by rw [split]; simp [← same, member])
      rw [nexts, if_neg notLast, if_neg notNew]
    · rw [tail]
      intro q member
      have notNew : q ≠ new := fun same => fresh (by simp [← same, member])
      have notHead : q ≠ head := fun same => by
        exact (List.nodup_cons.mp ring.once).1 (same ▸ member)
      rw [prevs, if_neg notNew, if_neg notHead]
    · rw [nexts, if_pos rfl]
    · rw [prevs, if_pos rfl]
    · rw [nexts, if_neg lastOther, if_pos rfl]
    · rw [prevs, if_neg headOther, if_pos rfl]
  · simp only [after, third, second, first, put_isSome]
  · simp only [List.mem_cons, List.mem_append, List.not_mem_nil, or_false, not_or] at away
    obtain ⟨notHead, notNodes, notNew⟩ := away
    have notLast : q ≠ last := fun same => by
      rw [← same] at lastInside
      simp [notHead, notNodes] at lastInside
    exact (put_other notLast).trans ((put_other notNew).trans
      ((put_other notNew).trans (put_other notHead)))

theorem listDelEntry_spec (ring : Ring m head nodes) (inside : entry ∈ nodes) :
    ∃ after, listDelEntry m (some entry) = some after ∧ Ring after head (nodes.erase entry) ∧
      (∀ q, (after q).isSome = (m q).isSome) ∧
      ∀ q ∉ head :: nodes.erase entry, after q = m q := by
  obtain ⟨xs, ys, _, rfl, erased⟩ := List.exists_erase_eq inside
  rw [erased]
  obtain ⟨front, x, toX⟩ : ∃ front x, head :: xs = front ++ [x] :=
    ⟨_, _, (List.dropLast_append_getLast (List.cons_ne_nil head xs)).symm⟩
  obtain ⟨y, back, fromY⟩ : ∃ y back, ys ++ [head] = y :: back :=
    List.exists_cons_of_ne_nil (by simp)
  have whole : head :: (xs ++ entry :: ys ++ [head]) = front ++ x :: entry :: y :: back := by
    rw [List.append_assoc, List.cons_append, fromY, ← List.cons_append, toX]
    simp
  have linked := ring.linked
  rw [whole, List.isChain_append_cons_cons] at linked
  obtain ⟨left, ⟨_, prev⟩, linked⟩ := linked
  obtain ⟨⟨next, _⟩, right⟩ := List.isChain_cons_cons.mp linked
  have xInside : x ∈ head :: xs := by simp [toX]
  have yInside : y ∈ ys ++ [head] := by simp [fromY]
  obtain ⟨away, once⟩ := List.nodup_cons.mp ring.once
  obtain ⟨onceXs, onceYs, apart⟩ := List.nodup_append.mp once
  obtain ⟨_, onceYs⟩ := List.nodup_cons.mp onceYs
  rw [List.mem_append, List.mem_cons, not_or, not_or] at away
  obtain ⟨headXs, _, headYs⟩ := away
  have xYs : x ∉ ys := fun member => by
    rcases List.mem_cons.mp xInside with rfl | inXs
    · exact headYs member
    · exact apart x inXs x (List.mem_cons_of_mem _ member) rfl
  have yXs : y ∉ xs := fun member => by
    rcases List.mem_append.mp yInside with inYs | same
    · exact apart y member y (List.mem_cons_of_mem _ inYs) rfl
    · exact headXs (List.mem_singleton.mp same ▸ member)
  have xFront : x ∉ front := fun member => by
    have onceFront : (front ++ [x]).Nodup := toX ▸ List.nodup_cons.mpr ⟨headXs, onceXs⟩
    exact (List.nodup_append.mp onceFront).2.2 x member x (by simp) rfl
  have yBack : y ∉ back := by
    have onceBack : (y :: back).Nodup := fromY ▸ List.nodup_append.mpr
      ⟨onceYs, List.nodup_singleton head, fun q member other same equal =>
        headYs (List.mem_singleton.mp same ▸ equal ▸ member)⟩
    exact (List.nodup_cons.mp onceBack).1
  have xThere : (m x).isSome := ring.present (by
    rcases List.mem_cons.mp xInside with rfl | inXs <;> simp [*])
  have yThere : (m y).isSome := ring.present (by
    rcases List.mem_append.mp yInside with inYs | same
    · simp [inYs]
    · simp [List.mem_singleton.mp same])
  obtain ⟨h, isEntry, isPrev, isNext⟩ := deref_prev (ring.present (List.mem_cons_of_mem head inside))
  let first := m.put y fun h => { h with prev := some x }
  let after := first.put x fun h => { h with next := some y }
  have firstThere : (first x).isSome := by rwa [put_isSome]
  have nexts (q : Link) : after.nextAt q = if q = x then some y else m.nextAt q := by
    simp only [after, first, nextAt_setNext firstThere, nextAt_setPrev]
  have prevs (q : Link) : after.prevAt q = if q = y then some x else m.prevAt q := by
    simp only [after, first, prevAt_setNext, prevAt_setPrev yThere]
  refine ⟨after, ?_, ⟨?_, ?_⟩, fun q => ?_, fun q outside => ?_⟩
  · simp only [listDelEntry, bind, isEntry, Option.bind_some, isPrev, isNext, prev, next,
      listDelBetween, Lists.setPrev, Lists.setNext, write_there yThere]
    exact write_there firstThere
  · exact ring.once.sublist (((List.sublist_cons_self entry ys).append_left xs).cons_cons head)
  · have rest : head :: (xs ++ ys ++ [head]) = front ++ x :: y :: back := by
      rw [List.append_assoc, fromY, ← List.cons_append, toX]
      simp
    rw [rest, List.isChain_append_cons_cons]
    refine ⟨chain_frame left ?_ ?_, ⟨?_, ?_⟩, chain_frame right ?_ ?_⟩
    · rw [List.dropLast_concat]
      intro q member
      rw [nexts, if_neg fun same => xFront (by rwa [← same])]
    · rw [← toX, List.tail_cons]
      intro q member
      rw [prevs, if_neg fun same => yXs (by rwa [← same])]
    · rw [nexts, if_pos rfl]
    · rw [prevs, if_pos rfl]
    · rw [← fromY, List.dropLast_concat]
      intro q member
      rw [nexts, if_neg fun same => xYs (by rwa [← same])]
    · intro q member
      rw [prevs, if_neg fun same => yBack (by rwa [← same])]
  · simp only [after, first, put_isSome]
  · have outer : q ∉ head :: (xs ++ ys ++ [head]) := by
      simp only [List.mem_cons, List.mem_append, List.not_mem_nil, or_false, not_or] at outside ⊢
      simp [outside]
    have notX : q ≠ x := fun same => outer (by
      rw [same]
      rcases List.mem_cons.mp xInside with rfl | inXs <;> simp [*])
    have notY : q ≠ y := fun same => outer (by
      rw [same]
      rcases List.mem_append.mp yInside with inYs | last
      · simp [inYs]
      · simp [List.mem_singleton.mp last])
    exact (put_other notX).trans (put_other notY)

theorem listDel_spec (ring : Ring m head nodes) (inside : entry ∈ nodes) :
    ∃ after, listDel m (some entry) = some after ∧ Ring after head (nodes.erase entry) ∧
      (∀ q, (after q).isSome = (m q).isSome) ∧
      ∀ q ∉ head :: nodes, after q = m q := by
  obtain ⟨middle, deletes, rest, there, frame⟩ := listDelEntry_spec ring inside
  have entryThere : (middle entry).isSome := (there entry).trans
    (ring.present (List.mem_cons_of_mem head inside))
  have gone : entry ∉ head :: nodes.erase entry := by
    obtain ⟨away, once⟩ := List.nodup_cons.mp ring.once
    rw [List.mem_cons, not_or]
    exact ⟨fun same => away (same ▸ inside), once.not_mem_erase⟩
  let second := middle.put entry fun h => { h with next := none }
  let after := second.put entry fun h => { h with prev := none }
  have secondThere : (second entry).isSome := by rwa [put_isSome]
  refine ⟨after, ?_, rest.frame fun q member => ?_, fun q => ?_, fun q away => ?_⟩
  · simp only [listDel, bind, deletes, Option.bind_some, Lists.setNext, Lists.setPrev,
      write_there entryThere]
    exact write_there secondThere
  · have other : q ≠ entry := fun same => gone (same ▸ member)
    exact (put_other other).trans (put_other other)
  · simp only [after, second, put_isSome, there]
  · rw [List.mem_cons, not_or] at away
    have other : q ≠ entry := fun same => away.2 (same ▸ inside)
    refine (put_other other).trans ((put_other other).trans (frame q ?_))
    rw [List.mem_cons, not_or]
    exact ⟨away.1, fun member => away.2 (List.mem_of_mem_erase member)⟩

theorem listDelInit_spec (ring : Ring m head nodes) (inside : entry ∈ nodes) :
    ∃ after, listDelInit m (some entry) = some after ∧ Ring after head (nodes.erase entry) ∧
      (∀ q, (after q).isSome = (m q).isSome) ∧
      ∀ q ∉ head :: nodes, after q = m q := by
  obtain ⟨middle, deletes, rest, there, frame⟩ := listDelEntry_spec ring inside
  have entryThere : (middle entry).isSome := (there entry).trans
    (ring.present (List.mem_cons_of_mem head inside))
  obtain ⟨after, inits, _, there', frame'⟩ := initListHead_spec entryThere
  have gone : entry ∉ head :: nodes.erase entry := by
    obtain ⟨away, once⟩ := List.nodup_cons.mp ring.once
    rw [List.mem_cons, not_or]
    exact ⟨fun same => away (same ▸ inside), once.not_mem_erase⟩
  refine ⟨after, ?_, rest.frame fun q member => frame' q fun same => gone (same ▸ member),
    fun q => (there' q).trans (there q), fun q away => ?_⟩
  · simp only [listDelInit, bind, deletes, Option.bind_some, inits]
  · rw [List.mem_cons, not_or] at away
    rw [frame' q fun same => away.2 (same ▸ inside), frame q]
    rw [List.mem_cons, not_or]
    exact ⟨away.1, fun member => away.2 (List.mem_of_mem_erase member)⟩

theorem listMoveTail_spec (ring : Ring m head nodes) (inside : entry ∈ nodes) :
    ∃ after, listMoveTail m (some entry) (some head) = some after ∧
      Ring after head (nodes.erase entry ++ [entry]) ∧
      (∀ q, (after q).isSome = (m q).isSome) ∧
      ∀ q ∉ head :: nodes, after q = m q := by
  obtain ⟨middle, deletes, rest, there, frame⟩ := listDelEntry_spec ring inside
  have gone : entry ∉ head :: nodes.erase entry := by
    obtain ⟨away, once⟩ := List.nodup_cons.mp ring.once
    rw [List.mem_cons, not_or]
    exact ⟨fun same => away (same ▸ inside), once.not_mem_erase⟩
  obtain ⟨after, adds, ring', there', frame'⟩ := listAddTail_spec rest gone ((there entry).trans
    (ring.present (List.mem_cons_of_mem head inside)))
  refine ⟨after, ?_, ring', fun q => (there' q).trans (there q), fun q away => ?_⟩
  · simp only [listMoveTail, bind, deletes, Option.bind_some, adds]
  · rw [List.mem_cons, not_or] at away
    have notRest : q ∉ nodes.erase entry := fun member => away.2 (List.mem_of_mem_erase member)
    have notEntry : q ≠ entry := fun same => away.2 (same ▸ inside)
    rw [frame' q (by simp [away.1, notRest, notEntry]), frame q (by simp [away.1, notRest])]

end Sequences

end VirtioDisk.ListLinks
