import Mathlib.Data.List.Induction
import Mathlib.Data.List.Perm.Basic
import Mathlib.Logic.Function.Basic
import VirtioDisk.DeviceBalance

/-!
util/init.c: the callbacks of `core_init` to `late_exit`, in a list for each priority. The
constructors add them in an order that no one knows; each is put in front of its list.
A list of callbacks has a bound on its turns.
-/

namespace VirtioDisk.InitLists

variable {Kvm Fault : Type}

def priorityLists : Nat := 10

/-- A pointer to a pointer to a node: the `first` of a list, or the `next` of a node. -/
inductive Slot where
  | first (priority : Nat)
  | next (t : Nat)

/-- `struct init_item` with its `struct hlist_node` -/
structure InitItem (Kvm Fault : Type) where
  next : Option Nat
  pprev : Option Slot
  fnName : String
  init : Kvm → Except Fault (Int × Kvm)

/-- `init_lists` or `exit_lists`, and the items that the constructors have. -/
structure Lists (Kvm Fault : Type) where
  items : Nat → Option (InitItem Kvm Fault)
  first : Nat → Option Nat

def Lists.update (lists : Lists Kvm Fault) (t : Nat)
    (change : InitItem Kvm Fault → InitItem Kvm Fault) : Option (Lists Kvm Fault) :=
  (lists.items t).map fun item => { lists with items := Function.update lists.items t (change item) }

def hlistAddHead (lists : Lists Kvm Fault) (n priority : Nat) : Option (Lists Kvm Fault) := do
  let first := lists.first priority
  let lists ← lists.update n fun item => { item with next := first }
  let lists ←
    match first with
    | none => some lists
    | some first => lists.update first fun item => { item with pprev := some (.next n) }
  { lists with first := Function.update lists.first priority (some n) }.update n fun item =>
    { item with pprev := some (.first priority) }

structure Registration (Kvm Fault : Type) where
  item : Nat
  priority : Nat
  name : String
  init : Kvm → Except Fault (Int × Kvm)

/-- `init_list_add` and `exit_list_add`, which differ in the array. -/
def listAdd (lists : Lists Kvm Fault) (r : Registration Kvm Fault) : Option (Lists Kvm Fault) := do
  let lists ← lists.update r.item fun item => { item with init := r.init, fnName := r.name }
  if r.priority < priorityLists then hlistAddHead lists r.item r.priority else none

/-- What the callbacks return, and the warning when one of them fails. -/
structure Ended (Kvm : Type) where
  r : Int
  kvm : Kvm
  warning : Option String

/-- A callback that breaks off, or a pointer to nothing. -/
inductive Crash (Fault : Type) where
  | wild
  | called (fault : Fault)

section Calls
variable (warning : String → String) (lists : Lists Kvm Fault) (turns : Nat)

def callList : Nat → Option Nat → Ended Kvm → Except (Crash Fault) (Ended Kvm)
  | _, none, ended => .ok ended
  | 0, some _, _ => .error .wild
  | turns + 1, some t, ended =>
      match lists.items t with
      | none => .error .wild
      | some item =>
          match item.init ended.kvm with
          | .error fault => .error (.called fault)
          | .ok (r, kvm) =>
              if r < 0 then .ok ⟨r, kvm, some (warning item.fnName)⟩
              else callList turns item.next ⟨r, kvm, none⟩

/-- The lists of these priorities, up to the first failure. -/
def callLists : List Nat → Ended Kvm → Except (Crash Fault) (Ended Kvm)
  | [], ended => .ok ended
  | i :: rest, ended => do
      let ended ← callList warning lists turns (lists.first i) ended
      if ended.r < 0 then .ok ended else callLists rest ended

end Calls

def initListInit (lists : Lists Kvm Fault) (turns : Nat) (kvm : Kvm) :
    Except (Crash Fault) (Ended Kvm) :=
  callLists ("Failed init: " ++ ·) lists turns (List.range priorityLists) ⟨0, kvm, none⟩

def initListExit (lists : Lists Kvm Fault) (turns : Nat) (kvm : Kvm) :
    Except (Crash Fault) (Ended Kvm) :=
  callLists (· ++ " failed.") lists turns (List.range priorityLists).reverse ⟨0, kvm, none⟩

/-! The lists as sequences. -/

/-- From this pointer on the nodes are those of the registrations. -/
def Hangs (items : Nat → Option (InitItem Kvm Fault)) :
    Slot → Option Nat → List (Registration Kvm Fault) → Prop
  | _, pos, [] => pos = none
  | slot, pos, r :: rest =>
      pos = some r.item ∧ ∃ next, items r.item = some ⟨next, some slot, r.name, r.init⟩ ∧
        Hangs items (.next r.item) next rest

/-- The registrations of a priority, the latest one first. -/
def listed (regs : List (Registration Kvm Fault)) (priority : Nat) : List (Registration Kvm Fault) :=
  (regs.filter fun r => r.priority = priority).reverse

/-- Before the constructors run the lists are empty. -/
def Zeroed (lists : Lists Kvm Fault) : Prop := ∀ i, lists.first i = none

structure Filled (lists : Lists Kvm Fault) (regs : List (Registration Kvm Fault)) : Prop where
  hang : ∀ i, Hangs lists.items (.first i) (lists.first i) (listed regs i)
  once : (regs.map Registration.item).Nodup

section Filling
variable {lists : Lists Kvm Fault} {regs : List (Registration Kvm Fault)}
  {items after : Nat → Option (InitItem Kvm Fault)} {slot : Slot} {pos : Option Nat}

theorem Hangs.frame {list : List (Registration Kvm Fault)} (hangs : Hangs items slot pos list)
    (same : ∀ r ∈ list, after r.item = items r.item) : Hangs after slot pos list := by
  induction list generalizing slot pos with
  | nil => exact hangs
  | cons r rest ih =>
      obtain ⟨here, next, there, later⟩ := hangs
      refine ⟨here, next, (same r List.mem_cons_self).trans there, ih later ?_⟩
      exact fun s member => same s (List.mem_cons_of_mem r member)

theorem mem_listed {r : Registration Kvm Fault} {i : Nat} :
    r ∈ listed regs i ↔ r ∈ regs ∧ r.priority = i := by
  simp [listed]

theorem listed_append (r : Registration Kvm Fault) (i : Nat) :
    listed (regs ++ [r]) i = if r.priority = i then r :: listed regs i else listed regs i := by
  rw [listed, List.filter_append]
  split
  · next same => simp [same, listed]
  · next other => simp [other, listed]

theorem Filled.alone (filled : Filled lists regs) {r s : Registration Kvm Fault} (one : r ∈ regs)
    (two : s ∈ regs) (same : r.item = s.item) : r = s :=
  List.inj_on_of_nodup_map filled.once one two same

theorem update_there {t : Nat} {item : InitItem Kvm Fault} (there : lists.items t = some item)
    (change : InitItem Kvm Fault → InitItem Kvm Fault) : lists.update t change =
      some { lists with items := Function.update lists.items t (change item) } := by
  rw [Lists.update, there]
  rfl

/-- The items after a node was put in front of `first`. -/
def pushed (items : Nat → Option (InitItem Kvm Fault)) (r : Registration Kvm Fault)
    (first : Option Nat) (t : Nat) : Option (InitItem Kvm Fault) :=
  if t = r.item then some ⟨first, some (.first r.priority), r.name, r.init⟩
  else if some t = first then
    (items t).map fun item => { item with pprev := some (.next r.item) }
  else items t

theorem pushed_isSome {r : Registration Kvm Fault} (there : (items r.item).isSome)
    (first : Option Nat) (t : Nat) : (pushed items r first t).isSome = (items t).isSome := by
  rw [pushed]
  split
  · next same =>
      rw [same, there]
      rfl
  · split
    · exact Option.isSome_map
    · rfl

theorem list_add_pushes {r : Registration Kvm Fault} (there : (lists.items r.item).isSome)
    (priority : r.priority < priorityLists)
    (head : ∀ f, lists.first r.priority = some f → f ≠ r.item ∧ (lists.items f).isSome) :
    listAdd lists r = some ⟨pushed lists.items r (lists.first r.priority),
      Function.update lists.first r.priority (some r.item)⟩ := by
  obtain ⟨item, there⟩ := Option.isSome_iff_exists.mp there
  rw [listAdd, update_there there]
  simp only [bind, Option.bind_some, if_pos priority, hlistAddHead]
  rw [update_there (Function.update_self ..)]
  cases first : lists.first r.priority with
  | none =>
      simp only [Option.bind_some]
      rw [update_there (Function.update_self ..)]
      congr 2
      funext t
      by_cases same : t = r.item <;> simp [pushed, same]
  | some f =>
      obtain ⟨other, here⟩ := head f first
      obtain ⟨old, here⟩ := Option.isSome_iff_exists.mp here
      simp only [Option.bind_some]
      rw [update_there (show _ = some old by simp [other, here])]
      simp only [Option.bind_some]
      rw [update_there ((Function.update_of_ne (Ne.symm other) ..).trans (Function.update_self ..))]
      congr 2
      funext t
      by_cases same : t = r.item
      · simp [pushed, same]
      · by_cases behind : t = f
        · subst behind
          simp [pushed, same, here]
        · simp [pushed, same, behind]

/-- What was at the head of the list learns of the new node. -/
theorem hangs_behind {r : Registration Kvm Fault} {list : List (Registration Kvm Fault)}
    (hangs : Hangs items slot pos list) (fresh : r.item ∉ list.map Registration.item)
    (once : (list.map Registration.item).Nodup) :
    Hangs (pushed items r pos) (.next r.item) pos list := by
  cases list with
  | nil => exact hangs
  | cons s rest =>
      obtain ⟨rfl, next, there, later⟩ := hangs
      rw [List.map_cons, List.mem_cons, not_or] at fresh
      obtain ⟨away, once⟩ := List.nodup_cons.mp once
      refine ⟨rfl, next, ?_, later.frame fun q member => ?_⟩
      · rw [pushed, if_neg (Ne.symm fresh.1), if_pos rfl, there]
        rfl
      · have other : q.item ≠ r.item := fun same =>
          fresh.2 (same ▸ List.mem_map_of_mem member)
        have behind : some q.item ≠ some s.item := fun same =>
          away (Option.some.inj same ▸ List.mem_map_of_mem member)
        rw [pushed, if_neg other, if_neg behind]

/-- One more registration hangs in front of its list, and the others hang as before. -/
theorem add_filled {r : Registration Kvm Fault} (filled : Filled lists regs)
    (fresh : r.item ∉ regs.map Registration.item) (there : (lists.items r.item).isSome)
    (priority : r.priority < priorityLists) :
    ∃ more, listAdd lists r = some more ∧ Filled more (regs ++ [r]) ∧
      ∀ t, (more.items t).isSome = (lists.items t).isSome := by
  have apart {s : Registration Kvm Fault} (old : s ∈ regs) : s.item ≠ r.item := fun same =>
    fresh (same ▸ List.mem_map_of_mem old)
  have once : ((regs ++ [r]).map Registration.item).Nodup := by
    rw [List.map_append]
    refine List.nodup_append.mpr ⟨filled.once, List.nodup_singleton _, ?_⟩
    intro t old q new same
    rw [same, List.mem_singleton.mp new] at old
    exact fresh old
  have head (f : Nat) (first : lists.first r.priority = some f) :
      ∃ s ∈ regs, s.priority = r.priority ∧ s.item = f ∧ (lists.items f).isSome := by
    have hangs := filled.hang r.priority
    cases list : listed regs r.priority with
    | nil =>
        rw [list] at hangs
        exact absurd (hangs.symm.trans first) nofun
    | cons s rest =>
        rw [list] at hangs
        obtain ⟨here, next, there, _⟩ := hangs
        obtain ⟨member, same⟩ := mem_listed.mp (list ▸ List.mem_cons_self)
        have equal : s.item = f := Option.some.inj (here.symm.trans first)
        exact ⟨s, member, same, equal, by rw [← equal, there]; rfl⟩
  refine ⟨_, list_add_pushes there priority fun f first => ?_, ⟨fun i => ?_, once⟩,
    pushed_isSome there _⟩
  · obtain ⟨s, member, _, rfl, present⟩ := head f first
    exact ⟨apart member, present⟩
  · rw [listed_append]
    by_cases same : r.priority = i
    · subst same
      have sub : (listed regs r.priority).map Registration.item |>.Nodup := by
        rw [listed, List.map_reverse, List.nodup_reverse]
        exact (List.filter_sublist.map _).nodup filled.once
      have away : r.item ∉ (listed regs r.priority).map Registration.item := by
        intro member
        obtain ⟨s, old, equal⟩ := List.mem_map.mp member
        exact apart (mem_listed.mp old).1 equal
      rw [if_pos rfl]
      refine ⟨Function.update_self .., lists.first r.priority, if_pos rfl, ?_⟩
      exact hangs_behind (filled.hang r.priority) away sub
    · rw [if_neg same]
      have first : Function.update lists.first r.priority (some r.item) i = lists.first i :=
        Function.update_of_ne (Ne.symm same) ..
      show Hangs _ _ (Function.update lists.first r.priority (some r.item) i) _
      rw [first]
      refine (filled.hang i).frame fun s member => ?_
      obtain ⟨old, inside⟩ := mem_listed.mp member
      refine (if_neg (apart old)).trans (if_neg ?_)
      intro behind
      obtain ⟨t, also, front, equal, _⟩ := head s.item behind.symm
      exact same (front.symm.trans ((filled.alone also old equal) ▸ inside))

end Filling

/-- The constructors, in some order. -/
def constructors (lists : Lists Kvm Fault) (regs : List (Registration Kvm Fault)) :
    Option (Lists Kvm Fault) := regs.foldlM listAdd lists

/-- Callbacks one after the other, up to the first failure. -/
def callAll (warning : String → String) :
    List (Registration Kvm Fault) → Ended Kvm → Except Fault (Ended Kvm)
  | [], ended => .ok ended
  | r :: rest, ended => do
      let (result, kvm) ← r.init ended.kvm
      if result < 0 then .ok ⟨result, kvm, some (warning r.name)⟩
      else callAll warning rest ⟨result, kvm, none⟩

section Runs
variable {lists : Lists Kvm Fault} {regs : List (Registration Kvm Fault)}
  {warning : String → String} {slot : Slot} {pos : Option Nat} {turns : Nat} {ended : Ended Kvm}

theorem constructors_fill (zeroed : Zeroed lists) (once : (regs.map Registration.item).Nodup)
    (there : ∀ r ∈ regs, (lists.items r.item).isSome)
    (small : ∀ r ∈ regs, r.priority < priorityLists) :
    ∃ filled, constructors lists regs = some filled ∧ Filled filled regs ∧
      ∀ t, (filled.items t).isSome = (lists.items t).isSome := by
  induction regs using List.reverseRecOn with
  | nil => exact ⟨lists, rfl, ⟨zeroed, .nil⟩, fun _ => rfl⟩
  | append_singleton regs r ih =>
      rw [List.map_append, List.nodup_append] at once
      obtain ⟨once, _, apart⟩ := once
      obtain ⟨filled, adds, hang, same⟩ := ih once
        (fun s member => there s (List.mem_append_left [r] member))
        (fun s member => small s (List.mem_append_left [r] member))
      have last : r ∈ regs ++ [r] := List.mem_append_right regs (List.mem_singleton_self r)
      have fresh : r.item ∉ regs.map Registration.item := fun old =>
        apart r.item old r.item (List.mem_singleton_self _) rfl
      obtain ⟨more, adding, larger, still⟩ := add_filled hang fresh
        ((same r.item).trans (there r last)) (small r last)
      refine ⟨more, ?_, larger, fun t => (still t).trans (same t)⟩
      rw [constructors, List.foldlM_append]
      have before : regs.foldlM listAdd lists = some filled := adds
      simp only [before, bind, Option.bind_some, List.foldlM_cons, adding]
      rfl

theorem call_all_append {first rest : List (Registration Kvm Fault)} (fine : 0 ≤ ended.r) :
    callAll warning (first ++ rest) ended = callAll warning first ended >>= fun ended =>
      if ended.r < 0 then .ok ended else callAll warning rest ended := by
  induction first generalizing ended with
  | nil => exact (if_neg (by omega)).symm
  | cons r first ih =>
      rw [List.cons_append, callAll, callAll]
      cases r.init ended.kvm with
      | error fault => rfl
      | ok result =>
          obtain ⟨result, kvm⟩ := result
          simp only [bind, Except.bind]
          by_cases failed : result < 0
          · simp only [if_pos failed]
          · simp only [if_neg failed]
            exact ih (Int.not_lt.mp failed)

theorem call_list_spec {list : List (Registration Kvm Fault)}
    (hangs : Hangs lists.items slot pos list) (enough : list.length ≤ turns) :
    callList warning lists turns pos ended = (callAll warning list ended).mapError .called := by
  induction list generalizing slot pos turns ended with
  | nil =>
      cases hangs
      rw [callList]
      rfl
  | cons r rest ih =>
      obtain ⟨rfl, next, there, later⟩ := hangs
      rw [List.length_cons] at enough
      obtain ⟨less, rfl⟩ : ∃ less, turns = less + 1 := ⟨turns - 1, by omega⟩
      rw [callList, there, callAll]
      dsimp only
      cases r.init ended.kvm with
      | error fault => rfl
      | ok result =>
          obtain ⟨result, kvm⟩ := result
          simp only [bind, Except.bind]
          split
          · rfl
          · exact ih later (by omega)

theorem call_lists_spec {order : List Nat} (filled : Filled lists regs)
    (enough : ∀ i, (listed regs i).length ≤ turns) (fine : 0 ≤ ended.r) :
    callLists warning lists turns order ended =
      (callAll warning (order.flatMap (listed regs)) ended).mapError .called := by
  induction order generalizing ended with
  | nil => rfl
  | cons i rest ih =>
      rw [callLists, List.flatMap_cons, call_all_append fine, call_list_spec (filled.hang i) (enough i)]
      cases callAll warning (listed regs i) ended with
      | error fault => rfl
      | ok after =>
          simp only [bind, Except.bind, Except.mapError]
          by_cases failed : after.r < 0
          · simp only [if_pos failed]
          · simp only [if_neg failed]
            exact ih (Int.not_lt.mp failed)

/-- For any priorities: the callbacks of a priority run from the latest to the first one that
was added, both when the device starts and when it ends. -/
theorem lists_called (filled : Filled lists regs) (enough : ∀ i, (listed regs i).length ≤ turns)
    (kvm : Kvm) :
    initListInit lists turns kvm = (callAll ("Failed init: " ++ ·)
        ((List.range priorityLists).flatMap (listed regs)) ⟨0, kvm, none⟩).mapError .called ∧
      initListExit lists turns kvm = (callAll (· ++ " failed.")
        ((List.range priorityLists).reverse.flatMap (listed regs)) ⟨0, kvm, none⟩).mapError
          .called :=
  ⟨call_lists_spec filled enough (Int.le_refl 0), call_lists_spec filled enough (Int.le_refl 0)⟩

end Runs

/-! Callbacks of different priorities. -/

section Orders
variable {regs other : List (Registration Kvm Fault)}

theorem listed_alone (apart : (regs.map Registration.priority).Nodup) (i : Nat) :
    (listed regs i).length ≤ 1 := by
  have same : (listed regs i).map Registration.priority =
      List.replicate (listed regs i).length i := by
    rw [List.eq_replicate_iff, List.length_map]
    refine ⟨rfl, fun priority member => ?_⟩
    obtain ⟨r, inside, equal⟩ := List.mem_map.mp member
    exact equal.symm.trans (mem_listed.mp inside).2
  have once : ((listed regs i).map Registration.priority).Nodup := by
    rw [listed, List.map_reverse, List.nodup_reverse]
    exact (List.filter_sublist.map _).nodup apart
  rw [same] at once
  exact List.nodup_replicate.mp once

/-- A list of at most one callback. -/
theorem listed_cases (apart : (regs.map Registration.priority).Nodup) (i : Nat) :
    listed regs i = [] ∨ ∃ r, listed regs i = [r] := by
  have short := listed_alone apart i
  cases list : listed regs i with
  | nil => exact .inl rfl
  | cons r rest =>
      rw [list, List.length_cons] at short
      have none : rest = [] := List.eq_nil_of_length_eq_zero (by omega)
      exact .inr ⟨r, by rw [none]⟩

theorem listed_perm (apart : (regs.map Registration.priority).Nodup) (perm : other.Perm regs)
    (i : Nat) : listed other i = listed regs i := by
  have same : (listed other i).Perm (listed regs i) := by
    rw [listed, listed]
    exact (List.reverse_perm _).trans ((perm.filter _).trans (List.reverse_perm _).symm)
  rcases listed_cases apart i with none | ⟨r, one⟩
  · rw [none] at same ⊢
    exact List.perm_nil.mp same
  · rw [one] at same ⊢
    exact List.perm_singleton.mp same

/-- The callbacks by their priorities. -/
def inOrder (regs : List (Registration Kvm Fault)) : List (Registration Kvm Fault) :=
  (List.range priorityLists).flatMap (listed regs)

theorem in_order_ascends (apart : (regs.map Registration.priority).Nodup) :
    (inOrder regs).Pairwise fun r s => r.priority < s.priority := by
  refine List.pairwise_flatMap.mpr ⟨fun i _ => ?_, ?_⟩
  · rcases listed_cases apart i with none | ⟨r, one⟩
    · rw [none]
      exact .nil
    · rw [one]
      exact List.pairwise_singleton _ r
  · refine List.pairwise_lt_range.imp fun less r one s two => ?_
    rw [(mem_listed.mp one).2, (mem_listed.mp two).2]
    exact less

theorem in_order_perm (apart : (regs.map Registration.priority).Nodup)
    (small : ∀ r ∈ regs, r.priority < priorityLists) : (inOrder regs).Perm regs := by
  have once : (inOrder regs).Nodup := (in_order_ascends apart).imp fun less same =>
    absurd (same ▸ less) (Nat.lt_irrefl _)
  refine (List.perm_ext_iff_of_nodup once (List.Nodup.of_map _ apart)).mpr fun r => ?_
  rw [inOrder, List.mem_flatMap]
  constructor
  · rintro ⟨i, _, inside⟩
    exact (mem_listed.mp inside).1
  · intro member
    exact ⟨r.priority, List.mem_range.mpr (small r member), mem_listed.mpr ⟨member, rfl⟩⟩

theorem in_order_reverse (apart : (regs.map Registration.priority).Nodup) :
    (List.range priorityLists).reverse.flatMap (listed regs) = (inOrder regs).reverse := by
  rw [inOrder, List.reverse_flatMap]
  congr 1
  funext i
  show listed regs i = (listed regs i).reverse
  rcases listed_cases apart i with none | ⟨r, one⟩
  · rw [none, List.reverse_nil]
  · rw [one, List.reverse_singleton]

theorem in_any_order {lists : Lists Kvm Fault} (zeroed : Zeroed lists)
    (once : (regs.map Registration.item).Nodup)
    (apart : (regs.map Registration.priority).Nodup)
    (there : ∀ r ∈ regs, (lists.items r.item).isSome)
    (small : ∀ r ∈ regs, r.priority < priorityLists) (perm : other.Perm regs) :
    ∃ filled, constructors lists other = some filled ∧ ∀ turns kvm, 0 < turns →
      initListInit filled turns kvm =
          (callAll ("Failed init: " ++ ·) (inOrder regs) ⟨0, kvm, none⟩).mapError .called ∧
        initListExit filled turns kvm =
          (callAll (· ++ " failed.") (inOrder regs).reverse ⟨0, kvm, none⟩).mapError .called := by
  obtain ⟨filled, adds, hang, _⟩ := constructors_fill zeroed
    ((perm.map _).nodup_iff.mpr once) (fun r member => there r (perm.mem_iff.mp member))
    (fun r member => small r (perm.mem_iff.mp member))
  have same : listed other = listed regs := funext (listed_perm apart perm)
  refine ⟨filled, adds, fun turns kvm positive => ?_⟩
  have short (i : Nat) : (listed other i).length ≤ turns := by
    rw [same]
    exact (listed_alone apart i).trans positive
  obtain ⟨starts, ends⟩ := lists_called hang short kvm
  rw [same] at starts ends
  rw [in_order_reverse apart] at ends
  exact ⟨starts, ends⟩

/-- Where no two callbacks share a priority, the order of the constructors does not matter:
the callbacks run by their priorities when the device starts, and the other way when it
ends. -/
theorem constructors_any_order {lists : Lists Kvm Fault} (zeroed : Zeroed lists)
    (once : (regs.map Registration.item).Nodup)
    (apart : (regs.map Registration.priority).Nodup)
    (there : ∀ r ∈ regs, (lists.items r.item).isSome)
    (small : ∀ r ∈ regs, r.priority < priorityLists) :
    ∃ order : List (Registration Kvm Fault), order.Perm regs ∧
      (order.Pairwise fun r s => r.priority < s.priority) ∧
      ∀ other, other.Perm regs → ∃ filled, constructors lists other = some filled ∧
        ∀ turns kvm, 0 < turns →
          initListInit filled turns kvm =
              (callAll ("Failed init: " ++ ·) order ⟨0, kvm, none⟩).mapError .called ∧
            initListExit filled turns kvm =
              (callAll (· ++ " failed.") order.reverse ⟨0, kvm, none⟩).mapError .called :=
  ⟨inOrder regs, in_order_perm apart small, in_order_ascends apart,
    fun _ perm => in_any_order zeroed once apart there small perm⟩

end Orders

/-! The callbacks of this device. -/

section Device
open DeviceLifecycle

/-- What the callbacks use of `struct kvm`, and the state of the device. -/
structure KvmState where
  disks : List DiskImage
  state : State

-- The codes of the errors are one.
def failure : Int := -1

def diskImageInitItem (c : Connection) (t : Nat) : Registration KvmState DeviceLifecycle.Crash where
  item := t
  priority := 4
  name := "disk_image__init"
  init kvm := do
    let (disks, log) ← diskImageInit c kvm.state.log
    match disks with
    | none => .ok (failure, { kvm with state := { kvm.state with log := log } })
    | some disks => .ok (0, ⟨disks, { kvm.state with log := log }⟩)

def virtioBlkInitItem (c : Connection) (t : Nat) : Registration KvmState DeviceLifecycle.Crash where
  item := t
  priority := 6
  name := "virtio_blk__init"
  init kvm := do
    let (started, s) ← virtioBlkInit c.host kvm.disks kvm.state
    .ok (if started then 0 else failure, { kvm with state := s })

def diskImageExitItem (t : Nat) : Registration KvmState DeviceLifecycle.Crash where
  item := t
  priority := 4
  name := "disk_image__exit"
  init kvm := .ok (0, { kvm with state :=
    { kvm.state with log := diskImageCloseAll kvm.disks kvm.state.log } })

def virtioBlkExitItem (t : Nat) : Registration KvmState DeviceLifecycle.Crash where
  item := t
  priority := 6
  name := "virtio_blk__exit"
  init kvm := do
    let s ← virtioBlkExit kvm.state
    .ok (0, { kvm with state := s })

theorem call_two (warning : String → String) (r s : Registration Kvm Fault) (kvm : Kvm) :
    callAll warning [r, s] ⟨0, kvm, none⟩ = r.init kvm >>= fun (result, kvm) =>
      if result < 0 then .ok ⟨result, kvm, some (warning r.name)⟩
      else s.init kvm >>= fun (result, kvm) =>
        if result < 0 then .ok ⟨result, kvm, some (warning s.name)⟩
        else .ok ⟨result, kvm, none⟩ := rfl

/-- What `device_initialize` makes of the callbacks. -/
def outcome : Except (Crash DeviceLifecycle.Crash) (Ended KvmState) →
    Except (Crash DeviceLifecycle.Crash) (Option (List DiskImage) × State)
  | .error crash => .error crash
  | .ok ended => .ok (if ended.r < 0 then none else some ended.kvm.disks, ended.kvm.state)

/-- Whichever constructor runs first, the lists run the callbacks as the device does: the
images are opened before the devices are made, and closed after they are gone. -/
theorem device_callbacks_listed {lists : Lists KvmState DeviceLifecycle.Crash}
    {regs : List (Registration KvmState DeviceLifecycle.Crash)} (zeroed : Zeroed lists)
    {one two : Nat} (there : ∀ t ∈ [one, two], (lists.items t).isSome) (c : Connection)
    (apart : one ≠ two) :
    (regs.Perm [diskImageInitItem c one, virtioBlkInitItem c two] → c.kvm = true →
        c.images.length ≤ maxDiskImages →
      ∃ filled, constructors lists regs = some filled ∧ ∀ turns s, 0 < turns →
        outcome (initListInit filled turns ⟨[], s⟩) =
          (deviceInitialize c s).mapError .called) ∧
    (regs.Perm [diskImageExitItem one, virtioBlkExitItem two] →
      ∃ filled, constructors lists regs = some filled ∧ ∀ turns disks s, 0 < turns →
        (initListExit filled turns ⟨disks, s⟩).map (fun ended => ended.kvm.state) =
          (deviceTeardown disks s).mapError .called) := by
  constructor
  · intro perm kvm room
    have items : ([diskImageInitItem c one, virtioBlkInitItem c two].map Registration.item).Nodup := by
      show [one, two].Nodup
      simpa using apart
    have priorities : [4, 6].Nodup := by decide
    obtain ⟨filled, adds, runs⟩ := in_any_order zeroed items priorities
      (fun _ member => there _ (List.mem_map_of_mem member))
      (by simp [diskImageInitItem, virtioBlkInitItem, priorityLists]) perm
    refine ⟨filled, adds, fun turns s positive => ?_⟩
    have order : inOrder [diskImageInitItem c one, virtioBlkInitItem c two] =
        [diskImageInitItem c one, virtioBlkInitItem c two] := rfl
    rw [(runs turns _ positive).1, order, call_two, deviceInitialize, if_neg (not_not.mpr kvm),
      if_neg (Nat.not_lt.mpr room)]
    show outcome (((diskImageInit c s.log >>= fun (disks, log) => _) >>= fun _ => _).mapError _) = _
    cases diskImageInit c s.log with
    | error crash => rfl
    | ok opened =>
        obtain ⟨disks, log⟩ := opened
        cases disks with
        | none => rfl
        | some disks =>
            show outcome (((virtioBlkInit c.host disks { s with log := log } >>= fun (started, s) =>
              _) >>= fun _ => _).mapError _) = ((virtioBlkInit c.host disks { s with log := log } >>=
                fun (started, s) => _).mapError _)
            cases virtioBlkInit c.host disks { s with log := log } with
            | error crash => rfl
            | ok made =>
                obtain ⟨started, s⟩ := made
                cases started <;> rfl
  · intro perm
    have items : ([diskImageExitItem one, virtioBlkExitItem two].map Registration.item).Nodup := by
      show [one, two].Nodup
      simpa using apart
    have priorities : [4, 6].Nodup := by decide
    obtain ⟨filled, adds, runs⟩ := in_any_order zeroed items priorities
      (fun _ member => there _ (List.mem_map_of_mem member))
      (by simp [diskImageExitItem, virtioBlkExitItem, priorityLists]) perm
    refine ⟨filled, adds, fun turns disks s positive => ?_⟩
    have order : (inOrder [diskImageExitItem one, virtioBlkExitItem two]).reverse =
        [virtioBlkExitItem two, diskImageExitItem one] := rfl
    rw [(runs turns _ positive).2, order, call_two, deviceTeardown]
    show (((virtioBlkExit s >>= fun s => _) >>= fun _ => _).mapError _).map _ =
      ((virtioBlkExit s >>= fun s => _).mapError _)
    cases virtioBlkExit s with
    | error crash => rfl
    | ok s => rfl

/-- Before the constructors run. -/
def blankLists : Lists KvmState DeviceLifecycle.Crash :=
  ⟨fun _ => some ⟨none, none, "", fun kvm => .ok (0, kvm)⟩, fun _ => none⟩

theorem blank_zeroed : Zeroed blankLists := fun _ => rfl

open DeviceBalance (readOnlyConnection)

theorem two_callbacks_ordered : ∃ order : List (Registration KvmState DeviceLifecycle.Crash),
    order.Perm [virtioBlkInitItem readOnlyConnection 1, diskImageInitItem readOnlyConnection 0] ∧
      order.Pairwise fun r s => r.priority < s.priority := by
  obtain ⟨order, perm, ascends, _⟩ := constructors_any_order blank_zeroed
    (show ([virtioBlkInitItem readOnlyConnection 1, diskImageInitItem readOnlyConnection 0].map
      Registration.item).Nodup by decide)
    (show [6, 4].Nodup by decide) (fun _ _ => rfl)
    (by simp [diskImageInitItem, virtioBlkInitItem, priorityLists])
  exact ⟨order, perm, ascends⟩

theorem blk_constructor_first : ∃ filled,
    constructors blankLists
        [virtioBlkInitItem readOnlyConnection 1, diskImageInitItem readOnlyConnection 0] =
      some filled ∧
    ∀ turns s, 0 < turns → outcome (initListInit filled turns ⟨[], s⟩) =
      (deviceInitialize readOnlyConnection s).mapError .called :=
  (device_callbacks_listed blank_zeroed (fun _ _ => rfl) readOnlyConnection Nat.zero_ne_one).1
    (.swap _ _ _) rfl (by decide)

end Device

end VirtioDisk.InitLists
