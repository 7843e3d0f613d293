import Mathlib.Data.List.Infix

/-!
Finite runs of a partial step function. `none` means that the action is not
enabled in the state, or that the program is no longer there to take it. An
invariant of one step is an invariant of every run.

The second half is about steps that say why they fault: a run of these is a
`List.foldlM`.
-/

namespace VirtioDisk.Transition

variable {State Action : Type}

def run (step : State → Action → Option State) : State → List Action → Option State
  | state, [] => some state
  | state, action :: rest =>
      match step state action with
      | none => none
      | some next => run step next rest

theorem run_cons {step : State → Action → Option State} {state final : State}
    {action : Action} {rest : List Action}
    (ran : run step state (action :: rest) = some final) :
    ∃ next, step state action = some next ∧ run step next rest = some final := by
  cases taken : step state action with
  | none => simp [run, taken] at ran
  | some next => exact ⟨next, rfl, by simpa [run, taken] using ran⟩

theorem run_append (step : State → Action → Option State) (state : State)
    (first second : List Action) :
    run step state (first ++ second) =
      (run step state first).bind (fun middle => run step middle second) := by
  induction first generalizing state with
  | nil => rfl
  | cons action rest ih =>
      cases taken : step state action with
      | none => simp [run, taken]
      | some next => simpa [run, taken] using ih next

theorem run_invariant {step : State → Action → Option State} (holds : State → Prop)
    (keeps : ∀ state action next, holds state → step state action = some next → holds next)
    {state final : State} {actions : List Action}
    (start : holds state) (ran : run step state actions = some final) : holds final := by
  induction actions generalizing state with
  | nil => cases ran; exact start
  | cons action rest ih =>
      obtain ⟨next, taken, tail⟩ := run_cons ran
      exact ih (keeps state action next start taken) tail

/-- What the actions of one kind keep holds after a run of them. -/
theorem run_allowed {step : State → Action → Option State} {allowed : Action → Prop}
    (holds : State → Prop)
    (keeps : ∀ state action next, allowed action → holds state →
      step state action = some next → holds next)
    {state final : State} {actions : List Action} (start : holds state)
    (each : ∀ action ∈ actions, allowed action) (ran : run step state actions = some final) :
    holds final := by
  induction actions generalizing state with
  | nil => cases ran; exact start
  | cons action rest ih =>
      obtain ⟨permitted, later⟩ := List.forall_mem_cons.mp each
      obtain ⟨next, taken, tail⟩ := run_cons ran
      exact ih (keeps state action next permitted start taken) later tail

/-- While something is left, each step of one kind lowers it or arrives. -/
theorem run_arrives {step : State → Action → Option State} (allowed : Action → Prop)
    (going : State → Prop) {arrived : State → Prop} (left : State → Nat)
    (some_left : ∀ state, going state → 0 < left state)
    (lowers : ∀ state action next, allowed action → going state → step state action = some next →
      left next < left state ∧ (going next ∨ arrived next))
    {state final : State} {actions : List Action} (start : going state)
    (each : ∀ action ∈ actions, allowed action) (ran : run step state actions = some final)
    (long : left state ≤ actions.length) :
    ∃ done middle, done <+: actions ∧ run step state done = some middle ∧ arrived middle := by
  induction actions generalizing state with
  | nil => exact absurd long (Nat.not_le.mpr (some_left state start))
  | cons action rest ih =>
      obtain ⟨permitted, later⟩ := List.forall_mem_cons.mp each
      obtain ⟨next, taken, tail⟩ := run_cons ran
      obtain ⟨less, going | arrived⟩ := lowers state action next permitted start taken
      · rw [List.length_cons] at long
        obtain ⟨done, middle, first, runs, arrived⟩ := ih going later tail (by omega)
        refine ⟨action :: done, middle, List.cons_prefix_cons.mpr ⟨rfl, first⟩, ?_, arrived⟩
        simpa [run, taken] using runs
      · exact ⟨[action], next, by simp, by simp [run, taken], arrived⟩

section Faulting
variable {Fault Ghost : Type} {step : State → Action → Except Fault State}

theorem bind_ok {first : Except Fault State} {rest : State → Except Fault Ghost} {final : Ghost}
    (ran : first >>= rest = .ok final) :
    ∃ middle, first = .ok middle ∧ rest middle = .ok final := by
  cases first with
  | error fault => cases ran
  | ok middle => exact ⟨middle, rfl, ran⟩

theorem fold_cons_ok {state final : State} {action : Action} {rest : List Action}
    (ran : (action :: rest).foldlM step state = .ok final) :
    ∃ next, step state action = .ok next ∧ rest.foldlM step next = .ok final := by
  rw [List.foldlM_cons] at ran
  exact bind_ok ran

/-- A history of the actions and the state they led to stay related, when one
step keeps them related. -/
theorem fold_tracked (track : Ghost → Action → Ghost) (related : Ghost → State → Prop)
    (keeps : ∀ ghost state action next, related ghost state → step state action = .ok next →
      related (track ghost action) next)
    (ghost : Ghost) {state final : State} {actions : List Action} (start : related ghost state)
    (ran : actions.foldlM step state = .ok final) : related (actions.foldl track ghost) final := by
  induction actions generalizing ghost state with
  | nil =>
      cases ran
      exact start
  | cons action rest ih =>
      obtain ⟨next, taken, tail⟩ := fold_cons_ok ran
      exact ih (track ghost action) (keeps ghost state action next start taken) tail

theorem fold_invariant (holds : State → Prop)
    (keeps : ∀ state action next, holds state → step state action = .ok next → holds next)
    {state final : State} {actions : List Action} (start : holds state)
    (ran : actions.foldlM step state = .ok final) : holds final :=
  fold_tracked (fun (ghost : Unit) _ => ghost) (fun _ => holds) (fun _ => keeps) () start ran

def Outcome (holds : State → Prop) (harmless : Fault → Prop) : Except Fault State → Prop
  | .ok state => holds state
  | .error fault => harmless fault

theorem Outcome.bind {Result : Type} {before : State → Prop} {after : Result → Prop}
    {harmless : Fault → Prop} {first : Except Fault State} {rest : State → Except Fault Result}
    (done : Outcome before harmless first)
    (later : ∀ state, before state → Outcome after harmless (rest state)) :
    Outcome after harmless (first >>= rest) := by
  cases first with
  | error fault => exact done
  | ok state => exact later state done

/-- Every action is one that is allowed in the state it is taken in. -/
def Meets (step : State → Action → Except Fault State) (allowed : State → Action → Prop) :
    State → List Action → Prop
  | _, [] => True
  | state, action :: rest =>
      allowed state action ∧ Outcome (fun next => Meets step allowed next rest)
        (fun _ => True) (step state action)

theorem fold_meets {allowed : State → Action → Prop} {holds : State → Prop}
    {harmless : Fault → Prop}
    (keeps : ∀ state action, allowed state action → holds state →
      Outcome holds harmless (step state action))
    {state : State} {actions : List Action} (start : holds state)
    (meets : Meets step allowed state actions) :
    Outcome holds harmless (actions.foldlM step state) := by
  induction actions generalizing state with
  | nil => exact start
  | cons action rest ih =>
      obtain ⟨permitted, later⟩ := meets
      have kept := keeps state action permitted start
      rw [List.foldlM_cons]
      cases taken : step state action with
      | error fault =>
          rw [taken] at kept
          exact kept
      | ok next =>
          rw [taken] at kept later
          exact ih kept later

/-- What the allowed actions do, where an invariant holds that they keep. -/
theorem meets_imp {allowed done : State → Action → Prop} (holds : State → Prop)
    (keeps : ∀ state action, holds state → allowed state action →
      done state action ∧ Outcome holds (fun _ => True) (step state action))
    {state : State} (start : holds state) {actions : List Action}
    (meets : Meets step allowed state actions) : Meets step done state actions := by
  induction actions generalizing state with
  | nil => trivial
  | cons action rest ih =>
      obtain ⟨permitted, later⟩ := meets
      obtain ⟨did, kept⟩ := keeps state action start permitted
      refine ⟨did, ?_⟩
      cases taken : step state action with
      | error fault => trivial
      | ok next =>
          rw [taken] at kept later
          exact ih kept later

/-- Two conditions on the actions of a run agree, when they agree wherever an invariant
holds that the allowed actions keep. -/
theorem meets_congr {allowed done : State → Action → Prop} (holds : State → Prop)
    {actions : List Action}
    (same : ∀ state, ∀ action ∈ actions, holds state → (done state action ↔ allowed state action))
    (keeps : ∀ state, ∀ action ∈ actions, holds state → allowed state action →
      Outcome holds (fun _ => True) (step state action))
    {state : State} (start : holds state) :
    Meets step done state actions ↔ Meets step allowed state actions := by
  induction actions generalizing state with
  | nil => exact Iff.rfl
  | cons action rest ih =>
      have first := same state action (by simp) start
      have later (next : State) (now : holds next) :
          Meets step done next rest ↔ Meets step allowed next rest :=
        ih (fun s a member => same s a (by simp [member]))
          (fun s a member => keeps s a (by simp [member])) now
      simp only [Meets, first]
      apply and_congr_right
      intro permitted
      have kept := keeps state action (by simp) start permitted
      cases taken : step state action with
      | error fault => exact Iff.rfl
      | ok next =>
          rw [taken] at kept
          exact later next kept

/-- A run avoids a fault exactly if every step of it is allowed, when the steps
that are not allowed are those that end in the fault. -/
theorem fold_avoids_iff {allowed : State → Action → Prop} {fault : Fault}
    (faults : ∀ state action, step state action = .error fault ↔ ¬ allowed state action)
    (state : State) (actions : List Action) :
    actions.foldlM step state ≠ .error fault ↔ Meets step allowed state actions := by
  induction actions generalizing state with
  | nil => exact iff_of_true (fun failed => by cases failed) trivial
  | cons action rest ih =>
      rw [List.foldlM_cons]
      have now := faults state action
      cases taken : step state action with
      | error other =>
          rw [taken] at now
          constructor
          · intro avoided
            refine ⟨by_contra fun refused => avoided ?_, ?_⟩
            · exact now.mpr refused
            · rw [taken]
              trivial
          · intro meets failed
            exact now.mp failed meets.1
      | ok next =>
          rw [taken] at now
          have permitted : allowed state action := by
            by_contra refused
            cases now.mpr refused
          constructor
          · intro avoided
            refine ⟨permitted, ?_⟩
            rw [taken]
            exact (ih next).mp avoided
          · intro meets
            have later := meets.2
            rw [taken] at later
            exact (ih next).mpr later

/-- Two conditions that agree wherever an invariant holds agree on every run. -/
theorem meets_iff {allowed required : State → Action → Prop} {holds : State → Prop}
    (keeps : ∀ state action next, holds state → step state action = .ok next → holds next)
    (same : ∀ state action, holds state → (allowed state action ↔ required state action))
    {state : State} (start : holds state) (actions : List Action) :
    Meets step allowed state actions ↔ Meets step required state actions := by
  induction actions generalizing state with
  | nil => exact Iff.rfl
  | cons action rest ih =>
      apply and_congr (same state action start)
      cases taken : step state action with
      | error fault => exact Iff.rfl
      | ok next => exact ih (keeps state action next start taken)

/-! Steps that reply, and two runs of them side by side. -/

variable {First Second Next Reply : Type}

/-- Two steps that fault alike, or lead to related results. -/
def Lockstep (related : First → Second → Prop) : Except Fault First → Except Fault Second → Prop
  | .ok first, .ok second => related first second
  | .error fault, .error other => fault = other
  | _, _ => False

theorem Lockstep.bind {related : First → Second → Prop} {kept : State → Next → Prop}
    {left : Except Fault First} {right : Except Fault Second}
    {afterLeft : First → Except Fault State} {afterRight : Second → Except Fault Next}
    (together : Lockstep related left right)
    (after : ∀ first second, related first second →
      Lockstep kept (afterLeft first) (afterRight second)) :
    Lockstep kept (left >>= afterLeft) (right >>= afterRight) := by
  cases left <;> cases right
  · exact together
  · exact together.elim
  · exact together.elim
  · exact after _ _ together

theorem Lockstep.same {first second : Except Fault State} (together : Lockstep Eq first second) :
    first = second := by
  cases first <;> cases second
  · exact congrArg Except.error together
  · exact together.elim
  · exact together.elim
  · exact congrArg Except.ok together

/-- A run that collects what the steps reply. -/
def replies (answer : State → Action → Except Fault (State × Reply)) :
    State → List Action → Except Fault (List Reply × State)
  | state, [] => .ok ([], state)
  | state, action :: rest => do
      let (next, reply) ← answer state action
      let (later, final) ← replies answer next rest
      .ok (reply :: later, final)

/-- Every action is one that the actions before it allow. -/
def Follows (track : Ghost → Action → Ghost) (allowed : Ghost → Action → Prop) :
    Ghost → List Action → Prop
  | _, [] => True
  | ghost, action :: rest => allowed ghost action ∧ Follows track allowed (track ghost action) rest

/-- Two runs of the same actions reply the same, when one step keeps the states
related and replies the same. -/
theorem replies_lockstep {answer : State → Action → Except Fault (State × Reply)}
    {track : Ghost → Action → Ghost} {allowed : Ghost → Action → Prop}
    {related : Ghost → State → State → Prop}
    (keeps : ∀ ghost first second action, related ghost first second → allowed ghost action →
      Lockstep (fun left right => left.2 = right.2 ∧ related (track ghost action) left.1 right.1)
        (answer first action) (answer second action))
    {ghost : Ghost} {first second : State} {actions : List Action}
    (start : related ghost first second) (follows : Follows track allowed ghost actions) :
    Lockstep (fun left right => left.1 = right.1 ∧
        related (actions.foldl track ghost) left.2 right.2)
      (replies answer first actions) (replies answer second actions) := by
  induction actions generalizing ghost first second with
  | nil => exact ⟨rfl, start⟩
  | cons action rest ih =>
      obtain ⟨permitted, later⟩ := follows
      apply (keeps ghost first second action start permitted).bind
      rintro ⟨nextFirst, reply⟩ ⟨nextSecond, _⟩ ⟨rfl, next⟩
      apply (ih next later).bind
      rintro ⟨repliesFirst, finalFirst⟩ ⟨_, finalSecond⟩ ⟨rfl, final⟩
      exact ⟨rfl, final⟩

/-- Replies that are good, and a ghost of the replies, when one allowed step keeps the ghost. -/
theorem replies_tracked {answer : State → Action → Except Fault (State × Reply)}
    {allowed : State → Action → Prop} (track : Ghost → Action → Reply → Ghost)
    {related : Ghost → State → Prop} {good : Action → Reply → Prop}
    (keeps : ∀ ghost state action, related ghost state → allowed state action →
      ∃ next reply, answer state action = .ok (next, reply) ∧ good action reply ∧
        related (track ghost action reply) next)
    (ghost : Ghost) {state : State} {actions : List Action} (start : related ghost state)
    (meets : Meets (fun state action => (answer state action).map Prod.fst) allowed state actions) :
    ∃ results final, replies answer state actions = .ok (results, final) ∧
      List.Forall₂ good actions results ∧
      related ((actions.zip results).foldl (fun ghost pair => track ghost pair.1 pair.2) ghost)
        final := by
  induction actions generalizing ghost state with
  | nil => exact ⟨[], state, rfl, .nil, start⟩
  | cons action rest ih =>
      obtain ⟨permitted, later⟩ := meets
      obtain ⟨next, reply, taken, well, kept⟩ := keeps ghost state action start permitted
      dsimp only at later
      rw [taken] at later
      obtain ⟨results, final, ran, all, last⟩ := ih _ kept later
      refine ⟨reply :: results, final, ?_, .cons well all, last⟩
      rw [replies, taken]
      show (replies answer next rest >>= fun pair => .ok (reply :: pair.1, pair.2)) = _
      rw [ran]
      rfl

theorem meets_any (step : State → Action → Except Fault State) (state : State)
    (actions : List Action) : Meets step (fun _ _ => True) state actions := by
  induction actions generalizing state with
  | nil => trivial
  | cons action rest ih =>
      refine ⟨trivial, ?_⟩
      cases step state action with
      | error fault => trivial
      | ok next => exact ih next

end Faulting

end VirtioDisk.Transition
