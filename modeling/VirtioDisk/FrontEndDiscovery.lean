import Mathlib.Data.Set.Basic
import Mathlib.Data.UInt

/-!
`xenstore_get_fe_domid` of xs_dev.c. Its only memory is the static `curr_domid`, the
largest domain id that any listing of the backend directory has shown. A call reads the
store three times: the listing, after the delay the devices of one domain, and the node of
a front-end.
-/

namespace VirtioDisk.FrontEndDiscovery

/-- What libxenstore gives for a path at one time. -/
structure Xenstore where
  directory : String → Option (List String)
  read : String → Option String

structure Moments where
  listing : Xenstore
  devices : Xenstore
  frontend : Xenstore

structure XsDev where
  type : String
  devidStr : Option String
  path : String
  devid : Int
  deriving DecidableEq

def xenstoreCreate (type : String) (devidStr : Option String) : XsDev where
  type := type
  devidStr := devidStr
  path := "backend/" ++ type
  devid := 0

def isSpace (c : Char) : Bool := c == ' ' || 9 ≤ c.toNat && c.toNat ≤ 13

def digits : Nat → List Char → Nat
  | value, [] => value
  | value, c :: rest => if c.isDigit then digits (10 * value + (c.toNat - 48)) rest else value

def atoi (text : String) : Int :=
  match text.toList.dropWhile isSpace with
  | [] => 0
  | c :: rest =>
      if c == '-' then -(digits 0 rest)
      else if c == '+' then digits 0 rest
      else digits 0 (c :: rest)

def backendPath (dev : XsDev) (domid : UInt16) : String :=
  "backend/" ++ dev.type ++ "/" ++ toString domid.toNat

def frontendPath (dev : XsDev) (domid : UInt16) (devid : Int) : String :=
  "/local/domain/" ++ toString domid.toNat ++ "/device/" ++ dev.type ++ "/" ++ toString devid

def readFrontend (dev : XsDev) (now : Moments) (domid : UInt16) (devid : Int) : Bool × XsDev :=
  match now.frontend.read (frontendPath dev domid devid) with
  | some _ => (true, { dev with devid := devid })
  | none => (false, { dev with devid := 0 })

-- Without a device the first one is read behind the end of the array: no result.
def xenstoreCheckFeExists (dev : XsDev) (now : Moments) (domid : UInt16) :
    Option (Bool × XsDev) :=
  match now.devices.directory (backendPath dev domid) with
  | none => some (false, dev)
  | some devid =>
      match dev.devidStr with
      | none => devid.head?.map fun first => readFrontend dev now domid (atoi first)
      | some wanted =>
          match devid.find? (· == wanted) with
          | none => some (false, dev)
          | some name => some (readFrontend dev now domid (atoi name))

def scanDomains (currDomid : UInt16) (domain : List String) : UInt16 :=
  domain.foldl (fun curr name =>
    let domid := UInt16.ofInt (atoi name)
    if domid > curr then domid else curr) currDomid

structure Found where
  result : Int
  currDomid : UInt16
  dev : XsDev
  deriving DecidableEq

def xenstoreGetFeDomid (currDomid : UInt16) (dev : XsDev) (now : Moments) : Option Found :=
  match now.listing.directory dev.path with
  | none => some ⟨-1, currDomid, dev⟩
  | some domain =>
      let prevDomid := currDomid
      let currDomid := scanDomains currDomid domain
      if currDomid > prevDomid then
        (xenstoreCheckFeExists dev now currDomid).map fun (there, dev) =>
          ⟨if there then currDomid.toNat else 0, currDomid, dev⟩
      else some ⟨0, currDomid, dev⟩

/-! What a call is to do. -/

/-- The ids a listing shows; without a listing none. -/
def listed (dev : XsDev) (now : Moments) : List UInt16 :=
  ((now.listing.directory dev.path).getD []).map fun name => UInt16.ofInt (atoi name)

/-- The node of the front-end for the device that is served in the domain. -/
def hasFrontEnd (dev : XsDev) (now : Moments) (domid : UInt16) : Bool :=
  match now.devices.directory (backendPath dev domid) with
  | none => false
  | some names =>
      match (match dev.devidStr with
        | none => names.head?
        | some wanted => names.find? (· == wanted)) with
      | none => false
      | some name => (now.frontend.read (frontendPath dev domid (atoi name))).isSome

/-- A domain that is to be returned: it was not since it is there. -/
def Waiting (dev : XsDev) (now : Moments) (returned : Set UInt16) (domid : UInt16) : Prop :=
  domid ∈ listed dev now ∧ hasFrontEnd dev now domid = true ∧ domid ∉ returned

/-- What remains of the returned domains; one that has left the listing is forgotten. -/
def present (dev : XsDev) (now : Moments) (returned : Set UInt16) : Set UInt16 :=
  {domid | domid ∈ returned ∧
    ((now.listing.directory dev.path).isSome → domid ∈ listed dev now)}

structure Serves (dev : XsDev) (now : Moments) (returned : Set UInt16) (result : Option Int) :
    Prop where
  finds : (∃ domid, Waiting dev now returned domid) →
    ∃ domid : UInt16, 0 < domid ∧ result = some (domid.toNat : Int) ∧
      Waiting dev now returned domid
  only : ∀ domid : UInt16, 0 < domid → result = some (domid.toNat : Int) →
    Waiting dev now returned domid

def returns (result : Int) (domid : UInt16) : Prop := 0 < domid ∧ result = (domid.toNat : Int)

/-- Every call of a run serves. The run ends where a call has no result. -/
def EachServes (currDomid : UInt16) (dev : XsDev) (returned : Set UInt16) :
    List Moments → Prop
  | [] => True
  | now :: rest =>
      let returned := present dev now returned
      match xenstoreGetFeDomid currDomid dev now with
      | none => Serves dev now returned none
      | some found =>
          Serves dev now returned (some found.result) ∧
            EachServes found.currDomid found.dev
              {domid | domid ∈ returned ∨ returns found.result domid} rest

/-! The condition. -/

/-- The largest id of the listing, if it is larger than all that were listed before. -/
def Newest (dev : XsDev) (now : Moments) (before : Set UInt16) (domid : UInt16) : Prop :=
  domid ∈ listed dev now ∧ (∀ other ∈ listed dev now, other ≤ domid) ∧ 0 < domid ∧
    ∀ other ∈ before, other < domid

/-- The directory of the newest domain is there and still empty. -/
def Empty (dev : XsDev) (now : Moments) (before : Set UInt16) : Prop :=
  dev.devidStr = none ∧ ∃ domid, Newest dev now before domid ∧
    now.devices.directory (backendPath dev domid) = some []

/-- Where a domain waits, the newest has its front-end. `before` are the ids listed so far,
and `served` those that were the newest, with a front-end, and are listed ever since. -/
def NewestInTime (dev : XsDev) (before served : Set UInt16) : List Moments → Prop
  | [] => True
  | now :: rest =>
      let served := present dev now served
      ((∃ domid, Waiting dev now served domid) →
        ∃ domid, Newest dev now before domid ∧ hasFrontEnd dev now domid = true) ∧
      (¬ Empty dev now before →
        NewestInTime dev {domid | domid ∈ before ∨ domid ∈ listed dev now}
          {domid | domid ∈ served ∨
            Newest dev now before domid ∧ hasFrontEnd dev now domid = true} rest)

/-! One call. -/

theorem returns_none {result : Int} {domid : UInt16} (low : result ≤ 0) :
    ¬ returns result domid := by
  rintro ⟨positive, same⟩
  have above := UInt16.lt_iff_toNat_lt.mp positive
  rw [UInt16.toNat_zero] at above
  omega

section Call
variable {dev : XsDev} {now : Moments} {currDomid domid : UInt16} {before returned : Set UInt16}

/-- `currDomid` is the largest id of all listings so far. -/
structure Tracks (currDomid : UInt16) (before : Set UInt16) : Prop where
  largest : ∀ domid ∈ before, domid ≤ currDomid
  shown : currDomid = 0 ∨ currDomid ∈ before

theorem scan_domains (currDomid : UInt16) (domain : List String) :
    currDomid ≤ scanDomains currDomid domain ∧
    (∀ domid ∈ domain.map (fun name => UInt16.ofInt (atoi name)),
      domid ≤ scanDomains currDomid domain) ∧
    (scanDomains currDomid domain = currDomid ∨
      scanDomains currDomid domain ∈ domain.map fun name => UInt16.ofInt (atoi name)) := by
  induction domain generalizing currDomid with
  | nil => exact ⟨UInt16.le_refl _, by simp, Or.inl rfl⟩
  | cons name rest ih =>
      have step : scanDomains currDomid (name :: rest) =
          scanDomains (if UInt16.ofInt (atoi name) > currDomid then UInt16.ofInt (atoi name)
            else currDomid) rest := rfl
      rw [step]
      by_cases larger : UInt16.ofInt (atoi name) > currDomid
      · rw [if_pos larger]
        obtain ⟨grows, covers, origin⟩ := ih (UInt16.ofInt (atoi name))
        refine ⟨UInt16.le_trans (UInt16.le_of_lt larger) grows, ?_, ?_⟩
        · rw [List.map_cons]
          exact List.forall_mem_cons.mpr ⟨grows, covers⟩
        · rw [List.map_cons, List.mem_cons]
          exact Or.inr origin
      · rw [if_neg larger]
        obtain ⟨grows, covers, origin⟩ := ih currDomid
        refine ⟨grows, ?_, ?_⟩
        · rw [List.map_cons]
          exact List.forall_mem_cons.mpr
            ⟨UInt16.le_trans (UInt16.not_lt.mp larger) grows, covers⟩
        · rw [List.map_cons, List.mem_cons]
          exact origin.imp_right Or.inr

theorem read_frontend (dev : XsDev) (now : Moments) (domid : UInt16) (devid : Int) :
    (readFrontend dev now domid devid).1 =
        (now.frontend.read (frontendPath dev domid devid)).isSome ∧
      ∃ kept, (readFrontend dev now domid devid).2 = { dev with devid := kept } := by
  unfold readFrontend
  split
  · next found => exact ⟨by rw [found]; rfl, devid, rfl⟩
  · next none => exact ⟨by rw [none]; rfl, 0, rfl⟩

/-- The check tells whether the front-end is there, except for an empty directory. -/
theorem check_exists (dev : XsDev) (now : Moments) (domid : UInt16) :
    (xenstoreCheckFeExists dev now domid = none ∧ hasFrontEnd dev now domid = false ∧
      dev.devidStr = none ∧ now.devices.directory (backendPath dev domid) = some []) ∨
    ((∃ devid, xenstoreCheckFeExists dev now domid =
        some (hasFrontEnd dev now domid, { dev with devid := devid })) ∧
      ¬ (dev.devidStr = none ∧ now.devices.directory (backendPath dev domid) = some [])) := by
  obtain ⟨type, devidStr, path, before⟩ := dev
  unfold xenstoreCheckFeExists hasFrontEnd
  cases now.devices.directory (backendPath ⟨type, devidStr, path, before⟩ domid) with
  | none => exact Or.inr ⟨⟨before, rfl⟩, by simp⟩
  | some names =>
      cases devidStr with
      | none =>
          cases names with
          | nil => exact Or.inl ⟨rfl, rfl, rfl, rfl⟩
          | cons first rest =>
              obtain ⟨there, devid, kept⟩ := read_frontend ⟨type, none, path, before⟩ now domid
                (atoi first)
              exact Or.inr ⟨⟨devid, congrArg some (Prod.ext there kept)⟩, by simp⟩
      | some wanted =>
          refine Or.inr ⟨?_, by simp⟩
          dsimp only
          cases names.find? (· == wanted) with
          | none => exact ⟨before, rfl⟩
          | some name =>
              obtain ⟨there, devid, kept⟩ := read_frontend ⟨type, some wanted, path, before⟩ now
                domid (atoi name)
              exact ⟨devid, congrArg some (Prod.ext there kept)⟩

theorem newest_unique {first second : UInt16} (one : Newest dev now before first)
    (other : Newest dev now before second) : first = second :=
  UInt16.le_antisymm (other.2.1 first one.1) (one.2.1 second other.1)

/-- The scan finds the newest domain, if there is one. -/
theorem scan_newest (tracks : Tracks currDomid before) {domain : List String}
    (shows : now.listing.directory dev.path = some domain) :
    Tracks (scanDomains currDomid domain) {domid | domid ∈ before ∨ domid ∈ listed dev now} ∧
    (scanDomains currDomid domain > currDomid →
      Newest dev now before (scanDomains currDomid domain)) ∧
    (¬ scanDomains currDomid domain > currDomid → ∀ domid, ¬ Newest dev now before domid) := by
  obtain ⟨grows, covers, origin⟩ := scan_domains currDomid domain
  have ids : listed dev now = domain.map fun name => UInt16.ofInt (atoi name) := by
    rw [listed, shows, Option.getD_some]
  rw [← ids] at covers origin
  refine ⟨⟨?_, ?_⟩, fun larger => ⟨?_, covers, ?_, ?_⟩, fun same domid newest => ?_⟩
  · rintro domid (old | new)
    · exact UInt16.le_trans (tracks.largest domid old) grows
    · exact covers domid new
  · rcases origin with same | new
    · rw [same]
      exact tracks.shown.imp_right Or.inl
    · exact Or.inr (Or.inr new)
  · rcases origin with same | new
    · rw [same] at larger
      exact absurd larger (UInt16.lt_irrefl _)
    · exact new
  · exact UInt16.lt_of_le_of_lt (UInt16.zero_le) larger
  · intro other old
    exact UInt16.lt_of_le_of_lt (tracks.largest other old) larger
  · obtain ⟨inside, _, positive, above⟩ := newest
    have below : currDomid < domid := by
      rcases tracks.shown with zero | old
      · rw [zero]
        exact positive
      · exact above _ old
    exact same (UInt16.lt_of_lt_of_le below (covers domid inside))

/-- A call returns the newest domain if that has its front-end, and else none. -/
theorem call_found (tracks : Tracks currDomid before) (dev : XsDev) (now : Moments) :
    (xenstoreGetFeDomid currDomid dev now = none ∧ Empty dev now before ∧
      ∀ domid, ¬ (Newest dev now before domid ∧ hasFrontEnd dev now domid = true)) ∨
    ∃ found, xenstoreGetFeDomid currDomid dev now = some found ∧ ¬ Empty dev now before ∧
      (∃ devid, found.dev = { dev with devid := devid }) ∧
      Tracks found.currDomid {domid | domid ∈ before ∨ domid ∈ listed dev now} ∧
      ∀ domid, returns found.result domid ↔
        Newest dev now before domid ∧ hasFrontEnd dev now domid = true := by
  unfold xenstoreGetFeDomid
  cases shows : now.listing.directory dev.path with
  | none =>
      have nothing : listed dev now = [] := by rw [listed, shows]; rfl
      have never (domid : UInt16) : ¬ Newest dev now before domid := by
        intro newest
        have inside := newest.1
        rw [nothing] at inside
        cases inside
      refine Or.inr ⟨_, rfl, ?_, ⟨dev.devid, rfl⟩, ?_, fun domid => ?_⟩
      · rintro ⟨_, domid, newest, _⟩
        exact never domid newest
      · refine ⟨?_, tracks.shown.imp_right Or.inl⟩
        rintro domid (old | new)
        · exact tracks.largest domid old
        · rw [nothing] at new
          cases new
      · have refused : ¬ returns (-1) domid := returns_none (by decide)
        exact iff_of_false refused fun newest => never domid newest.1
  | some domain =>
      obtain ⟨after, finds, misses⟩ := scan_newest tracks shows
      by_cases larger : scanDomains currDomid domain > currDomid
      · simp only [if_pos larger]
        have newest := finds larger
        rcases check_exists dev now (scanDomains currDomid domain) with
          ⟨gone, absent, first, bare⟩ | ⟨⟨devid, checked⟩, usual⟩
        · refine Or.inl ⟨by rw [gone]; rfl, ⟨first, _, newest, bare⟩, fun domid other => ?_⟩
          rw [newest_unique other.1 newest, absent] at other
          cases other.2
        · refine Or.inr ⟨_, by rw [checked]; rfl, ?_, ⟨devid, rfl⟩, after, fun domid => ?_⟩
          · rintro ⟨first, domid, other, bare⟩
            rw [newest_unique other newest] at bare
            exact usual ⟨first, bare⟩
          · cases there : hasFrontEnd dev now (scanDomains currDomid domain) with
            | false =>
                refine iff_of_false (returns_none (Int.le_refl 0)) fun other => ?_
                rw [newest_unique other.1 newest, there] at other
                cases other.2
            | true =>
                constructor
                · rintro ⟨_, same⟩
                  have found := UInt16.toNat_inj.mp (Int.natCast_inj.mp same)
                  rw [← found]
                  exact ⟨newest, there⟩
                · rintro ⟨other, _⟩
                  rw [newest_unique other newest]
                  exact ⟨newest.2.2.1, rfl⟩
      · simp only [if_neg larger]
        refine Or.inr ⟨_, rfl, ?_, ⟨dev.devid, rfl⟩, after, fun domid => ?_⟩
        · rintro ⟨_, domid, newest, _⟩
          exact misses larger domid newest
        · exact iff_of_false (returns_none (Int.le_refl 0)) fun newest =>
            misses larger domid newest.1

/-- A call that returns the newest domain serves just when that one is there if any waits. -/
theorem serves_iff {result : Int} (known : returned ⊆ before)
    (found : ∀ domid, returns result domid ↔
      Newest dev now before domid ∧ hasFrontEnd dev now domid = true) :
    Serves dev now returned (some result) ↔
      ((∃ domid, Waiting dev now returned domid) →
        ∃ domid, Newest dev now before domid ∧ hasFrontEnd dev now domid = true) := by
  have waits {domid : UInt16}
      (newest : Newest dev now before domid ∧ hasFrontEnd dev now domid = true) :
      Waiting dev now returned domid :=
    ⟨newest.1.1, newest.2, fun old =>
      UInt16.lt_irrefl domid (newest.1.2.2.2 domid (known old))⟩
  constructor
  · intro serves waiting
    obtain ⟨domid, positive, same, _⟩ := serves.finds waiting
    exact ⟨domid, (found domid).mp ⟨positive, Option.some.inj same⟩⟩
  · intro newest
    refine ⟨fun waiting => ?_, fun domid positive same => ?_⟩
    · obtain ⟨domid, new⟩ := newest waiting
      obtain ⟨positive, same⟩ := (found domid).mpr new
      exact ⟨domid, positive, congrArg some same, waits new⟩
    · exact waits ((found domid).mp ⟨positive, Option.some.inj same⟩)

theorem unserved_iff :
    Serves dev now returned none ↔ ¬ ∃ domid, Waiting dev now returned domid := by
  constructor
  · intro serves waiting
    obtain ⟨_, _, same, _⟩ := serves.finds waiting
    cases same
  · exact fun none => ⟨fun waiting => absurd waiting none, fun _ _ same => nomatch same⟩

end Call

/-! Runs. -/

/-- Each call of a run serves just when each listing with a waiting domain has a newest
domain whose front-end is there. -/
theorem each_serves_iff {currDomid : UInt16} (dev : XsDev) {before returned : Set UInt16}
    (tracks : Tracks currDomid before) (known : returned ⊆ before) (devid : Int)
    (visits : List Moments) :
    EachServes currDomid { dev with devid := devid } returned visits ↔
      NewestInTime dev before returned visits := by
  induction visits generalizing currDomid before returned devid with
  | nil => exact Iff.rfl
  | cons now rest ih =>
      have still : present dev now returned ⊆ before := fun domid old => known old.1
      rw [EachServes, NewestInTime]
      rcases call_found tracks { dev with devid := devid } now with
        ⟨gone, bare, none⟩ | ⟨found, some_, usual, ⟨kept, same⟩, after, results⟩
      · rw [gone]
        refine unserved_iff.trans ⟨fun unserved => ⟨fun waiting => absurd waiting unserved,
          fun usual => absurd bare usual⟩, ?_⟩
        rintro ⟨newest, _⟩ waiting
        obtain ⟨domid, new⟩ := newest waiting
        exact none domid new
      · rw [some_]
        have grown : {domid | domid ∈ present dev now returned ∨ returns found.result domid} ⊆
            {domid | domid ∈ before ∨ domid ∈ listed dev now} := by
          rintro domid (old | new)
          · exact Or.inl (still old)
          · exact Or.inr ((results domid).mp new).1.1
        have served : {domid | domid ∈ present dev now returned ∨ returns found.result domid} =
            {domid | domid ∈ present dev now returned ∨
              Newest dev now before domid ∧ hasFrontEnd dev now domid = true} := by
          ext domid
          exact or_congr Iff.rfl (results domid)
        have later := ih after grown kept
        rw [served, ← same] at later
        have first := serves_iff still results
        refine (and_congr first ?_).trans (and_congr_right' (forall_prop_of_true usual).symm)
        rw [← served] at later ⊢
        exact later

/-- From the start, when no domain has been listed. -/
theorem discovery_serves_iff (type : String) (devidStr : Option String) (visits : List Moments) :
    EachServes 0 (xenstoreCreate type devidStr) ∅ visits ↔
      NewestInTime (xenstoreCreate type devidStr) ∅ ∅ visits :=
  each_serves_iff (xenstoreCreate type devidStr)
    ⟨fun domid old => absurd old (Set.notMem_empty domid), Or.inl rfl⟩ (Set.empty_subset _) 0 visits

/-- Two domains that appear together, each with its front-end. -/
def twoDomains : Xenstore where
  directory path :=
    if path = "backend/virtio_disk" then some ["3", "5"]
    else if path = "backend/virtio_disk/3" ∨ path = "backend/virtio_disk/5" then some ["51712"]
    else none
  read path :=
    if path = "/local/domain/3/device/virtio_disk/51712" ∨
        path = "/local/domain/5/device/virtio_disk/51712" then some ""
    else none

theorem second_domain_missed : ¬ ∀ (type : String) (devidStr : Option String)
    (visits : List Moments), EachServes 0 (xenstoreCreate type devidStr) ∅ visits := by
  intro serves
  let now : Moments := ⟨twoDomains, twoDomains, twoDomains⟩
  let dev := xenstoreCreate "virtio_disk" none
  have first : xenstoreGetFeDomid 0 dev now = some ⟨5, 5, { dev with devid := 51712 }⟩ := by
    decide +kernel
  have second : xenstoreGetFeDomid 5 { dev with devid := 51712 } now =
      some ⟨0, 5, { dev with devid := 51712 }⟩ := by
    decide +kernel
  have both := serves "virtio_disk" none [now, now]
  rw [EachServes, first] at both
  have last := both.2
  rw [EachServes, second] at last
  have waiting : Waiting dev now (present dev now
      {domid | domid ∈ present dev now ∅ ∨ returns 5 domid}) 3 := by
    refine ⟨by decide +kernel, by decide +kernel, ?_⟩
    rintro ⟨⟨never, _⟩ | ⟨_, other⟩, _⟩
    · exact never
    · exact absurd other (by decide)
  obtain ⟨domid, positive, same, _⟩ := last.1.finds ⟨3, waiting⟩
  exact returns_none (Int.le_refl 0) ⟨positive, Option.some.inj same⟩

end VirtioDisk.FrontEndDiscovery
