import VirtioDisk.Transition

/-!
xs_dev.c with the main loop of demu.c: sessions of the daemon with one front end after
the other, while others write to xenstore. Every call to xenstore may fail, apart from the
end of a watch. A watch fires when it is registered and with each change of what is below
its path; the daemon reads the events in their order. `swallowed` is ghost state: an event
of the front end was read while the daemon waited for the state of the back end.
-/

namespace VirtioDisk.XenstoreSession

open Transition

/-- The nodes below a path: a state that is a number, and the path of the front end. -/
structure Node where
  state : Option Int
  frontend : Option String

def xenbusStateUnknown : Int := 0

def xenbusStateInitialising : Int := 1

def xenbusStateInitWait : Int := 2

def xenbusStateClosed : Int := 6

/-- The next call of the daemon. -/
inductive Daemon where
  -- `xenstore_wait_fe_domid`
  | waiting
  -- `xenstore_connect_dom`
  | readBackend
  | setInitWait
  | readFrontend
  | readFrontState
  | watchBackend
  | watchFrontend
  -- `xenstore_wait_be_state`
  | awaitState
  | awaitEvent
  -- the rest of `demu_initialize`
  | initialise
  -- `select` and `xenstore_poll_watches`
  | selecting
  | checkBackend (token : String)
  | checkFrontend (token : String) (lost : Bool)
  -- `xenstore_disconnect_dom`
  | setClosed
  | unwatchFrontend
  | unwatchBackend
  | remove
  | exited
  deriving DecidableEq

structure State where
  nodes : String → Node
  watches : List String
  events : List String
  be : String
  fe : Option String
  -- paths from `xenstore_read_fe_str` that are not freed
  strings : Nat
  daemon : Daemon
  -- the main loop ends after the teardown
  ends : Bool
  swallowed : Bool
  wild : Bool

inductive Action where
  | change (path : String) (node : Node)
  | event (token : String)
  | drop
  | accept (be : String)
  | act (ok : Bool)
  | stop

def start (nodes : String → Node) : State where
  nodes := nodes
  watches := []
  events := []
  be := ""
  fe := none
  strings := 0
  daemon := .waiting
  ends := false
  swallowed := false
  wild := false

section Steps
variable (s : State)

def change (path : String) (node : Node) : State :=
  { s with
    nodes := fun other => if other = path then node else s.nodes other
    events := if path ∈ s.watches then s.events ++ [path] else s.events }

def setState (ok : Bool) (path : String) (state : Int) : State :=
  if ok then change s path { s.nodes path with state := some state } else s

def xsWatch (ok : Bool) (path : String) : Option State :=
  if ok ∧ path ∉ s.watches then
    some { s with watches := s.watches ++ [path], events := s.events ++ [path] }
  else none

/-- A state, unless the read fails or it is no number. -/
def readState (ok : Bool) (path : String) : Option Int :=
  if ok then (s.nodes path).state else none

/-- `xenstore_be_state_changed` and the first half of `xenstore_fe_state_changed` -/
def lostState (ok : Bool) (path : String) : Bool :=
  readState s ok path = none ∨ readState s ok path = some xenbusStateUnknown

/-- `bits` is what `1 << be_state & awaited` is for a state that is no bit of an int. -/
def awaited (bits : Int → Bool) (state : Int) : Bool :=
  if 0 ≤ state ∧ state < 32 then state = xenbusStateInitWait ∨ state = xenbusStateUnknown
  else bits state

def act (bits : Int → Bool) (ok : Bool) : Option State :=
  match s.daemon with
  | .waiting | .exited => none
  | .readBackend =>
      if readState s ok s.be = some xenbusStateInitialising then
        some { s with daemon := .setInitWait }
      else some { s with daemon := .setClosed }
  | .setInitWait => some { setState s ok s.be xenbusStateInitWait with daemon := .readFrontend }
  | .readFrontend =>
      match if ok then (s.nodes s.be).frontend else none with
      | none => some { s with daemon := .setClosed }
      | some path =>
          some { s with fe := some path, strings := s.strings + 1, daemon := .readFrontState }
  | .readFrontState =>
      match s.fe with
      | none => some { s with wild := true }
      | some path =>
          if readState s ok path = some xenbusStateInitialising then
            some { s with daemon := .watchBackend }
          else some { s with daemon := .setClosed }
  | .watchBackend =>
      match xsWatch s ok s.be with
      | none => some { s with daemon := .setClosed }
      | some s => some { s with daemon := .watchFrontend }
  | .watchFrontend =>
      match s.fe with
      | none => some { s with wild := true }
      | some path =>
          match xsWatch s ok path with
          | none => some { s with daemon := .setClosed }
          | some s => some { s with daemon := .awaitState }
  | .awaitState =>
      match readState s ok s.be with
      | none => some { s with daemon := .setClosed }
      | some state =>
          if state = xenbusStateInitWait then some { s with daemon := .initialise }
          else if awaited bits state then some { s with daemon := .setClosed }
          else some { s with daemon := .awaitEvent }
  | .awaitEvent =>
      if ok then
        match s.events with
        | [] => none
        | token :: rest =>
            some { s with
              events := rest
              swallowed := s.swallowed || decide (s.fe = some token)
              daemon := .awaitState }
      else some { s with daemon := .setClosed }
  | .initialise => some { s with daemon := if ok then .selecting else .setClosed }
  | .selecting =>
      if ok then
        match s.events with
        | [] => none
        | token :: rest => some { s with events := rest, daemon := .checkBackend token }
      else some { s with daemon := .setClosed }
  | .checkBackend token =>
      some { s with daemon := .checkFrontend token (token = s.be ∧ lostState s ok s.be) }
  | .checkFrontend token lost =>
      match s.fe with
      | none => some { s with wild := true }
      | some path =>
          if token = path then
            if lostState s ok path then some { s with daemon := .setClosed }
            else if readState s ok path = some xenbusStateInitialising then
              some { s with daemon := .selecting }
            -- BUG_ON raises a signal, whose handler tears down and exits.
            else some { s with daemon := .setClosed, ends := true }
          else some { s with daemon := if lost then .setClosed else .selecting }
  | .setClosed => some { setState s ok s.be xenbusStateClosed with daemon := .unwatchFrontend }
  | .unwatchFrontend =>
      match s.fe with
      | none => some { s with daemon := .unwatchBackend }
      | some path =>
          if s.strings = 0 then some { s with wild := true }
          else some { s with
            watches := s.watches.erase path
            fe := none
            strings := s.strings - 1
            daemon := .unwatchBackend }
  | .unwatchBackend => some { s with watches := s.watches.erase s.be, daemon := .remove }
  | .remove =>
      some { (if ok then change s s.be ⟨none, none⟩ else s) with
        daemon := if s.ends then .exited else .waiting }

def step (bits : Int → Bool) : Action → Option State
  | .change path node => some (change s path node)
  -- Whatever was queued before, or is watched by other parts.
  | .event token => some { s with events := s.events ++ [token] }
  | .drop => if s.daemon = .waiting then some { s with events := s.events.tail } else none
  | .accept be =>
      if s.daemon = .waiting then
        some { s with be := be, swallowed := false, daemon := .readBackend }
      else none
  | .act ok => act s bits ok
  -- select fails
  | .stop =>
      if s.daemon = .selecting then some { s with daemon := .setClosed, ends := true } else none

end Steps

/-! What each call finds. -/

def Gone (node : Node) : Prop := node.state = none ∨ node.state = some xenbusStateUnknown

def Unexpected (node : Node) : Prop := node.state ≠ some xenbusStateInitialising

/-- Both paths are watched. -/
structure Watching (s : State) (path : String) : Prop where
  fe : s.fe = some path
  apart : path ≠ s.be
  watches : s.watches = [s.be, path]

def Stage (s : State) : Prop :=
  match s.daemon with
  | .waiting | .exited | .readBackend | .setInitWait | .readFrontend | .remove =>
      s.fe = none ∧ s.watches = []
  | .readFrontState | .watchBackend => s.fe ≠ none ∧ s.watches = []
  | .watchFrontend => s.fe ≠ none ∧ s.watches = [s.be]
  | .awaitState | .awaitEvent =>
      ∃ path, Watching s path ∧
        (Unexpected (s.nodes path) → path ∈ s.events ∨ s.swallowed = true)
  | .initialise | .selecting =>
      ∃ path, Watching s path ∧
        (Unexpected (s.nodes path) → path ∈ s.events ∨ s.swallowed = true) ∧
        (Gone (s.nodes s.be) → s.be ∈ s.events)
  | .checkBackend token =>
      ∃ path, Watching s path ∧
        (Unexpected (s.nodes path) → path ∈ s.events ∨ s.swallowed = true ∨ token = path) ∧
        (Gone (s.nodes s.be) → s.be ∈ s.events ∨ token = s.be)
  | .checkFrontend token lost =>
      ∃ path, Watching s path ∧
        (Unexpected (s.nodes path) → path ∈ s.events ∨ s.swallowed = true ∨ token = path) ∧
        (Gone (s.nodes s.be) → s.be ∈ s.events ∨ lost = true) ∧
        (lost = true → token = s.be)
  | .setClosed | .unwatchFrontend =>
      s.watches = [] ∨ s.watches = [s.be] ∨ ∃ path, Watching s path
  | .unwatchBackend => s.fe = none ∧ (s.watches = [] ∨ s.watches = [s.be])

structure Inv (s : State) : Prop where
  tame : s.wild = false
  strings : s.strings = if s.fe.isSome then 1 else 0
  stage : Stage s

theorem start_inv (nodes : String → Node) : Inv (start nodes) := ⟨rfl, rfl, rfl, rfl⟩

section Steps
variable {s next : State} {bits : Int → Bool}

/-- Others change what is below a path: the daemon is told if it watches it. -/
theorem Stage.told {other : State} (stage : Stage s) (daemon : other.daemon = s.daemon)
    (be : other.be = s.be) (fe : other.fe = s.fe) (watches : other.watches = s.watches)
    (swallowed : other.swallowed = s.swallowed) (events : s.events ⊆ other.events)
    (told : ∀ path ∈ s.watches, other.nodes path = s.nodes path ∨ path ∈ other.events) :
    Stage other := by
  have watching {path : String} (both : Watching s path) : Watching other path :=
    ⟨fe.trans both.fe, be ▸ both.apart, by rw [watches, be, both.watches]⟩
  have front {path : String} {rest : Prop} (both : Watching s path)
      (was : Unexpected (s.nodes path) → path ∈ s.events ∨ rest) :
      Unexpected (other.nodes path) → path ∈ other.events ∨ rest := by
    intro now
    rcases told path (by simp [both.watches]) with same | told
    · rw [same] at now
      exact (was now).imp_left (events ·)
    · exact .inl told
  have back {path : String} {rest : Prop} (both : Watching s path)
      (was : Gone (s.nodes s.be) → s.be ∈ s.events ∨ rest) :
      Gone (other.nodes other.be) → other.be ∈ other.events ∨ rest := by
    rw [be]
    intro now
    rcases told s.be (by simp [both.watches]) with same | told
    · rw [same] at now
      exact (was now).imp_left (events ·)
    · exact .inl told
  rw [Stage] at stage ⊢
  rw [daemon, fe, watches, be]
  rw [be] at back
  cases at_ : s.daemon <;> simp only [at_] at stage ⊢
  case awaitState | awaitEvent =>
    obtain ⟨path, both, lost⟩ := stage
    exact ⟨path, watching both, swallowed ▸ front both lost⟩
  case initialise | selecting =>
    obtain ⟨path, both, lost, gone⟩ := stage
    refine ⟨path, watching both, swallowed ▸ front both lost, fun now => ?_⟩
    exact (back both (fun was => .inl (gone was)) now).resolve_right id
  case checkBackend token =>
    obtain ⟨path, both, lost, gone⟩ := stage
    exact ⟨path, watching both, swallowed ▸ front both lost, back both gone⟩
  case checkFrontend token lost' =>
    obtain ⟨path, both, lost, gone, same⟩ := stage
    exact ⟨path, watching both, swallowed ▸ front both lost, back both gone, same⟩
  case setClosed | unwatchFrontend =>
    exact stage.imp_right (Or.imp_right fun ⟨path, both⟩ => ⟨path, watching both⟩)
  all_goals exact stage

theorem change_told (s : State) (path : String) (node : Node) (other : String)
    (watched : other ∈ s.watches) : (change s path node).nodes other = s.nodes other ∨
      other ∈ (change s path node).events := by
  by_cases same : other = path
  · subst same
    exact .inr (by simp [change, watched])
  · exact .inl (if_neg same)

theorem change_events (s : State) (path : String) (node : Node) :
    s.events ⊆ (change s path node).events := by
  rw [change]
  dsimp only
  split
  · exact List.subset_append_left ..
  · exact List.Subset.refl _

theorem Stage.leaves (stage : Stage s) :
    s.watches = [] ∨ s.watches = [s.be] ∨ ∃ path, Watching s path := by
  rw [Stage] at stage
  cases at_ : s.daemon <;> simp only [at_] at stage
  case awaitState | awaitEvent | initialise | selecting | checkBackend | checkFrontend =>
    obtain ⟨path, both, _⟩ := stage
    exact .inr (.inr ⟨path, both⟩)
  case watchFrontend => exact .inr (.inl stage.2)
  case setClosed | unwatchFrontend => exact stage
  case unwatchBackend => exact stage.2.imp_right .inl
  all_goals exact .inl stage.2

/-- From everywhere the daemon may go on to `xenstore_disconnect_dom`. -/
theorem Inv.leave (inv : Inv s) (ends : Bool) : Inv { s with daemon := .setClosed, ends := ends } :=
  ⟨inv.tame, inv.strings, inv.stage.leaves.imp_right (Or.imp_right fun ⟨path, both⟩ =>
    ⟨path, both.fe, both.apart, both.watches⟩)⟩

theorem read_state {ok : Bool} {path : String} {state : Int}
    (read : readState s ok path = some state) : (s.nodes path).state = some state := by
  rw [readState] at read
  split at read
  · exact read
  · cases read

theorem lost_gone {path : String} (ok : Bool) (gone : Gone (s.nodes path)) :
    lostState s ok path = true := by
  rw [lostState, readState]
  cases ok with
  | false => rfl
  | true => exact decide_eq_true gone

theorem xs_watch_some {ok : Bool} {path : String} (watches : xsWatch s ok path = some next) :
    path ∉ s.watches ∧
      next = { s with watches := s.watches ++ [path], events := s.events ++ [path] } := by
  rw [xsWatch] at watches
  split at watches
  · next allowed => exact ⟨allowed.2, (Option.some.inj watches).symm⟩
  · cases watches

theorem act_inv {ok : Bool} (inv : Inv s) (taken : act s bits ok = some next) : Inv next := by
  obtain ⟨tame, strings, stage⟩ := id inv
  rw [Stage] at stage
  rw [act] at taken
  cases at_ : s.daemon with
  | waiting | exited =>
      rw [at_] at taken
      cases taken
  | readBackend =>
      simp only [at_] at taken stage
      split at taken
      · cases taken
        exact ⟨tame, strings, stage⟩
      · cases taken
        exact inv.leave s.ends
  | setInitWait =>
      simp only [at_] at taken stage
      cases taken
      cases ok <;> exact ⟨tame, strings, stage⟩
  | readFrontend =>
      simp only [at_] at taken stage
      split at taken
      · cases taken
        exact inv.leave s.ends
      · cases taken
        refine ⟨tame, ?_, by simp, stage.2⟩
        rw [strings, stage.1]
        rfl
  | readFrontState =>
      simp only [at_] at taken stage
      split at taken
      · next none => exact absurd none stage.1
      · split at taken
        · cases taken
          exact ⟨tame, strings, stage⟩
        · cases taken
          exact inv.leave s.ends
  | watchBackend =>
      simp only [at_] at taken stage
      split at taken
      · cases taken
        exact inv.leave s.ends
      · next watched =>
          obtain ⟨_, rfl⟩ := xs_watch_some watched
          cases taken
          exact ⟨tame, strings, stage.1, by rw [stage.2]; rfl⟩
  | watchFrontend =>
      simp only [at_] at taken stage
      split at taken
      · next none => exact absurd none stage.1
      · next path there =>
          split at taken
          · cases taken
            exact inv.leave s.ends
          · next watched =>
              obtain ⟨apart, rfl⟩ := xs_watch_some watched
              cases taken
              rw [stage.2, List.mem_singleton] at apart
              exact ⟨tame, strings, path, ⟨there, apart, by rw [stage.2]; rfl⟩,
                fun _ => .inl (by simp)⟩
  | awaitState =>
      simp only [at_] at taken stage
      obtain ⟨path, both, lost⟩ := stage
      split at taken
      · cases taken
        exact inv.leave s.ends
      · next state read =>
          split at taken
          · next waited =>
              cases taken
              refine ⟨tame, strings, path, ⟨both.fe, both.apart, both.watches⟩, lost,
                fun gone => ?_⟩
              have here := read_state read
              rw [waited] at here
              rcases gone with none | unknown
              · cases here.symm.trans none
              · cases here.symm.trans unknown
          · split at taken
            · cases taken
              exact inv.leave s.ends
            · cases taken
              exact ⟨tame, strings, path, ⟨both.fe, both.apart, both.watches⟩, lost⟩
  | awaitEvent =>
      simp only [at_] at taken stage
      obtain ⟨path, both, lost⟩ := stage
      split at taken
      · split at taken
        · cases taken
        · next token rest queue =>
            cases taken
            refine ⟨tame, strings, path, ⟨both.fe, both.apart, both.watches⟩, fun now => ?_⟩
            rw [queue] at lost
            rcases lost now with queued | swallowed
            · rcases List.mem_cons.mp queued with rfl | later
              · exact .inr (by simp [both.fe])
              · exact .inl later
            · exact .inr (by simp [swallowed])
      · cases taken
        exact inv.leave s.ends
  | initialise =>
      simp only [at_] at taken stage
      obtain ⟨path, both, lost⟩ := stage
      cases taken
      cases ok with
      | false => exact inv.leave s.ends
      | true => exact ⟨tame, strings, path, ⟨both.fe, both.apart, both.watches⟩, lost⟩
  | selecting =>
      simp only [at_] at taken stage
      obtain ⟨path, both, lost, gone⟩ := stage
      split at taken
      · split at taken
        · cases taken
        · next token rest queue =>
            cases taken
            rw [queue] at lost gone
            refine ⟨tame, strings, path, ⟨both.fe, both.apart, both.watches⟩, fun now => ?_,
              fun now => ?_⟩
            · rcases lost now with queued | swallowed
              · rcases List.mem_cons.mp queued with rfl | later
                · exact .inr (.inr rfl)
                · exact .inl later
              · exact .inr (.inl swallowed)
            · rcases List.mem_cons.mp (gone now) with same | later
              · exact .inr same.symm
              · exact .inl later
      · cases taken
        exact inv.leave s.ends
  | checkBackend token =>
      simp only [at_] at taken stage
      obtain ⟨path, both, lost, gone⟩ := stage
      cases taken
      refine ⟨tame, strings, path, ⟨both.fe, both.apart, both.watches⟩, lost, fun now => ?_, ?_⟩
      · exact (gone now).imp_right fun same => decide_eq_true ⟨same, lost_gone ok now⟩
      · intro found
        exact (of_decide_eq_true found).1
  | checkFrontend token found =>
      simp only [at_] at taken stage
      obtain ⟨path, both, lost, gone, same⟩ := stage
      split at taken
      · next none => cases none.symm.trans both.fe
      · next other there =>
          obtain rfl := Option.some.inj (there.symm.trans both.fe)
          split at taken
          · next here =>
              subst here
              split at taken
              · cases taken
                exact inv.leave s.ends
              · split at taken
                · next read =>
                    cases taken
                    refine ⟨tame, strings, token, ⟨both.fe, both.apart, both.watches⟩,
                      fun now => absurd (read_state read) now, fun now => ?_⟩
                    exact (gone now).resolve_right fun noticed => both.apart (same noticed)
                · cases taken
                  exact inv.leave true
          · next elsewhere =>
              cases taken
              cases found with
              | true => exact inv.leave s.ends
              | false =>
                  refine ⟨tame, strings, _, ⟨both.fe, both.apart, both.watches⟩, fun now => ?_,
                    fun now => (gone now).resolve_right (by simp)⟩
                  exact (lost now).imp_right fun rest => rest.resolve_right elsewhere
  | setClosed =>
      simp only [at_] at taken stage
      cases taken
      cases ok <;> exact ⟨tame, strings, stage.imp_right (Or.imp_right fun ⟨path, both⟩ =>
        ⟨path, both.fe, both.apart, both.watches⟩)⟩
  | unwatchFrontend =>
      simp only [at_] at taken stage
      split at taken
      · next there =>
          cases taken
          refine ⟨tame, strings, there, stage.imp_right fun rest => rest.resolve_right ?_⟩
          rintro ⟨path, both⟩
          cases there.symm.trans both.fe
      · next path there =>
          have one : s.strings = 1 := by
            rw [strings, there]
            rfl
          rw [if_neg (by rw [one]; decide)] at taken
          cases taken
          refine ⟨tame, by rw [one]; rfl, rfl, ?_⟩
          rcases stage with none | back | ⟨other, both⟩
          · exact .inl (by simp [none])
          · by_cases same : s.be = path
            · exact .inl (by simp [back, same])
            · exact .inr (by simp [back, same])
          · cases there.symm.trans both.fe
            exact .inr (by simp [both.watches, Ne.symm both.apart])
  | unwatchBackend =>
      simp only [at_] at taken stage
      cases taken
      refine ⟨tame, strings, stage.1, ?_⟩
      rcases stage.2 with none | back
      · simp [none]
      · simp [back]
  | remove =>
      simp only [at_] at taken stage
      cases taken
      cases ok <;> cases s.ends <;> exact ⟨tame, strings, stage⟩

theorem step_inv {action : Action} (inv : Inv s) (taken : step s bits action = some next) :
    Inv next := by
  cases action with
  | change path node =>
      cases taken
      exact ⟨inv.tame, inv.strings, inv.stage.told rfl rfl rfl rfl rfl (change_events s path node)
        (change_told s path node)⟩
  | event token =>
      cases taken
      exact ⟨inv.tame, inv.strings, inv.stage.told rfl rfl rfl rfl rfl
        (List.subset_append_left ..) fun _ _ => .inl rfl⟩
  | drop =>
      simp only [step] at taken
      split at taken
      · next at_ =>
          cases taken
          have stage := inv.stage
          simp only [Stage, at_] at stage
          exact ⟨inv.tame, inv.strings, by simpa only [Stage, at_] using stage⟩
      · cases taken
  | accept be =>
      simp only [step] at taken
      split at taken
      · next at_ =>
          cases taken
          have stage := inv.stage
          simp only [Stage, at_] at stage
          exact ⟨inv.tame, inv.strings, stage⟩
      · cases taken
  | act ok => exact act_inv inv taken
  | stop =>
      simp only [step] at taken
      split at taken
      · cases taken
        exact inv.leave true
      · cases taken

/-! A front end that is lost. -/

def Attached : Daemon → Prop
  | .selecting | .checkBackend _ | .checkFrontend .. => True
  | _ => False

def Leaving : Daemon → Prop
  | .setClosed | .unwatchFrontend | .unwatchBackend | .remove => True
  | _ => False

/-- The daemon is back in the main loop, or it has exited. -/
def Over (s : State) : Prop := s.daemon = .waiting ∨ s.daemon = .exited

/-- There is no back end any more, or the front end has not the only state that it should
have. -/
def Lost (s : State) : Prop :=
  Gone (s.nodes s.be) ∨
    s.swallowed = false ∧ ∃ path, s.fe = some path ∧ Unexpected (s.nodes path)

def Going (s : State) : Prop := Leaving s.daemon ∨ Attached s.daemon ∧ Lost s

def left (s : State) : Nat :=
  match s.daemon with
  | .checkBackend _ => 3 * s.events.length + 7
  | .checkFrontend .. => 3 * s.events.length + 6
  | .selecting => 3 * s.events.length + 5
  | .setClosed => 4
  | .unwatchFrontend => 3
  | .unwatchBackend => 2
  | .remove => 1
  | _ => 0

theorem left_le (s : State) : left s ≤ 3 * s.events.length + 7 := by
  rw [left]
  split <;> omega

theorem left_pos (going : Going s) : 0 < left s := by
  rw [Going] at going
  rw [left]
  cases at_ : s.daemon <;> simp [at_, Leaving, Attached] at going ⊢

/-- As long as the loss is not noticed, an event of it is there to be read. -/
theorem going_enabled (inv : Inv s) (going : Going s) : ∃ next, act s bits true = some next := by
  have stage := inv.stage
  rw [Going] at going
  rw [Stage] at stage
  rw [act]
  cases at_ : s.daemon <;> simp only [at_, Leaving, Attached, or_false, false_or, true_and,
    false_and] at going stage ⊢
  case selecting =>
    obtain ⟨path, both, lost, gone⟩ := stage
    cases queue : s.events with
    | cons token rest => exact ⟨_, rfl⟩
    | nil =>
        rw [queue] at lost gone
        rcases going with now | ⟨kept, other, there, now⟩
        · cases gone now
        · cases there.symm.trans both.fe
          rcases lost now with none | swallowed
          · cases none
          · cases kept.symm.trans swallowed
  case checkFrontend token found =>
    split
    · exact ⟨_, rfl⟩
    · split
      · split
        · exact ⟨_, rfl⟩
        · split <;> exact ⟨_, rfl⟩
      · exact ⟨_, rfl⟩
  case unwatchFrontend =>
    split
    · exact ⟨_, rfl⟩
    · split <;> exact ⟨_, rfl⟩
  all_goals exact ⟨_, rfl⟩

theorem leave_lowers (attached : Attached s.daemon) (ends : Bool) :
    left { s with daemon := .setClosed, ends := ends } < left s ∧
      (Going { s with daemon := .setClosed, ends := ends } ∨
        Over { s with daemon := .setClosed, ends := ends }) := by
  refine ⟨?_, .inl (.inl trivial)⟩
  cases at_ : s.daemon <;> simp only [at_, Attached] at attached
  all_goals
    simp only [left, at_]
    omega

theorem going_lowers {ok : Bool} (inv : Inv s) (going : Going s)
    (taken : act s bits ok = some next) : left next < left s ∧ (Going next ∨ Over next) := by
  have stage := inv.stage
  rw [Going] at going
  rw [Stage] at stage
  rw [act] at taken
  have leave := @leave_lowers s
  cases at_ : s.daemon <;> simp only [at_, Leaving, Attached, or_false, false_or, true_and,
    false_and] at going stage taken leave
  case selecting =>
    split at taken
    · split at taken
      · cases taken
      · next token rest queue =>
          cases taken
          refine ⟨?_, .inl (.inr ⟨trivial, going⟩)⟩
          simp only [left, at_, queue, List.length_cons]
          omega
    · cases taken
      exact leave trivial s.ends
  case checkBackend token =>
    cases taken
    exact ⟨by simp only [left, at_]; omega, .inl (.inr ⟨trivial, going⟩)⟩
  case checkFrontend token found =>
    have again : left { s with daemon := .selecting } < left s ∧
        (Going { s with daemon := .selecting } ∨ Over { s with daemon := .selecting }) :=
      ⟨by simp only [left, at_]; omega, .inl (.inr ⟨trivial, going⟩)⟩
    obtain ⟨path, both, _⟩ := stage
    split at taken
    · next none => cases none.symm.trans both.fe
    · split at taken
      · split at taken
        · cases taken
          exact leave trivial s.ends
        · split at taken
          · cases taken
            exact again
          · cases taken
            exact leave trivial true
      · cases taken
        cases found with
        | true => exact leave trivial s.ends
        | false => exact again
  case unwatchFrontend =>
    split at taken
    · cases taken
      exact ⟨by simp only [left, at_]; omega, .inl (.inl trivial)⟩
    · next path there =>
        have strings := inv.strings
        rw [there] at strings
        rw [if_neg (by rw [strings]; simp)] at taken
        cases taken
        exact ⟨by simp only [left, at_]; omega, .inl (.inl trivial)⟩
  case remove =>
    cases taken
    cases ends : s.ends with
    | false => exact ⟨by simp [left, at_], .inr (.inl rfl)⟩
    | true => exact ⟨by simp [left, at_], .inr (.inr rfl)⟩
  all_goals
    cases taken
    exact ⟨by simp only [left, at_]; omega, .inl (.inl trivial)⟩

theorem over_stays {ok : Bool} (ended : Over s) : act s bits ok = none := by
  rw [act]
  rcases ended with at_ | at_ <;> rw [at_]

/-- The steps of the daemon alone. -/
theorem going_run {more : List Action} {final : State} (inv : Inv s) (going : Going s)
    (each : ∀ action ∈ more, ∃ ok, action = .act ok)
    (ran : run (step · bits) s more = some final) :
    more.length + left final ≤ left s ∧ Inv final ∧ (Going final ∨ Over final) := by
  induction more generalizing s with
  | nil =>
      cases ran
      exact ⟨by simp, inv, .inl going⟩
  | cons action more ih =>
      obtain ⟨next, taken, tail⟩ := run_cons ran
      obtain ⟨⟨ok, rfl⟩, later⟩ := List.forall_mem_cons.mp each
      have still := act_inv inv taken
      obtain ⟨lower, going | ended⟩ := going_lowers inv going taken
      · obtain ⟨bound, rest⟩ := ih still going later tail
        exact ⟨by rw [List.length_cons]; omega, rest⟩
      · cases more with
        | nil =>
            cases tail
            exact ⟨by rw [List.length_singleton]; omega, still, .inr ended⟩
        | cons action more =>
            obtain ⟨⟨ok, rfl⟩, _⟩ := List.forall_mem_cons.mp later
            obtain ⟨_, taken, _⟩ := run_cons tail
            cases (over_stays ended).symm.trans taken

end Steps

def twoEnds (path : String) : Node :=
  if path = "back" then ⟨some 1, some "front"⟩ else ⟨some 1, none⟩

/-- A session begins, and then the front end is removed. -/
def removedRun : List Action :=
  .accept "back" :: List.replicate 8 (.act true) ++ [.change "front" ⟨none, none⟩]

theorem removed_unexpected {node : Node} (removed : node.state = none) : Unexpected node := by
  rw [Unexpected, removed]
  simp

/-- The front end goes away while the daemon waits for the state of the back end, which
somebody else has changed. -/
def swallowedRun : List Action :=
  .accept "back" :: List.replicate 6 (.act true) ++
    [.change "back" ⟨some 3, some "front"⟩, .change "front" ⟨none, none⟩] ++
    List.replicate 8 (.act true) ++ [.change "back" ⟨some 2, some "front"⟩] ++
    List.replicate 5 (.act true)

/-- The daemon waits for another event although there is no front end. -/
example : (run (step · fun _ => false) (start twoEnds) swallowedRun).map
      (fun s => (s.daemon, s.events, s.fe, (s.nodes "front").state)) =
    some (.selecting, [], some "front", none) := by decide

end VirtioDisk.XenstoreSession
