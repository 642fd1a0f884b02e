import EgbFleet.Fleet.Registration
import EgbFleet.Support.Runs

/-!
# Fleet — the robots of a run

`FleetAdapter` registers the robots of the configuration, then polls `RestRobotDiscovery`, which
registers those a scan finds.  Each keeps a map of its own of the robots it knows and of the command
handles it made; the update loop copies robots from discovery's map to the adapter's, never back.

So a robot may be registered twice: if the configuration lists it twice, or if a scan finds a robot
of the configuration.  `added_once`: in every run in which neither happens, and the adapter is not
shut down once discovery has added a robot, every name is passed to `add_robot` at most once, and
the command handle it was passed with stays in one of the maps.
-/

noncomputable section

namespace EgbFleet.Fleet

open Frames

/-! ### Attempts -/

/-- What an attempt to register a robot meets. -/
structure Attempt where
  /-- Whether its objects can be made: the robot's state, its command handle and its controller. -/
  constructed : Bool
  /-- What `get_pose` returns, each time it is called. -/
  poses : Nat → Option Pose
  mapName : String
  now : ℤ
  /-- Whether `add_robot` returns, rather than raises. -/
  returns : Bool

/-- The first pose `get_pose` returns in so many calls. -/
def Attempt.initialPose (a : Attempt) (maxRetries : Nat) : Option Pose :=
  (List.range maxRetries).findSome? a.poses

/-- The number of an attempt, which names the objects it makes. -/
abbrev AttemptId := Nat

/-- A call of `add_robot`. -/
structure AddRobot (S : Type) where
  robotName : String
  commandHandle : AttemptId
  registration : Registration S

/-- The fleet handle: how many attempts there have been, and the calls of `add_robot`, the newest
first. -/
structure FleetHandle (S : Type) where
  attempts : AttemptId
  calls : List (AddRobot S)

variable {S : Type}

namespace FleetHandle

/-- An attempt that does not get as far as `add_robot`. -/
def pass (h : FleetHandle S) : FleetHandle S := { h with attempts := h.attempts + 1 }

def addRobot (robotName : String) (r : Registration S) (h : FleetHandle S) : FleetHandle S where
  attempts := h.attempts + 1
  calls := ⟨robotName, h.attempts, r⟩ :: h.calls

end FleetHandle

/-- What `initialize_static_robots` passes to `add_robot`, if it does. -/
def Attempt.static (f : FleetConfig S) (a : Attempt) : Option (Registration S) :=
  if a.constructed then (a.initialPose 1).bind (f.staticRegistration a.mapName a.now) else none

/-- What `add_dynamic_robot` passes to `add_robot`, if it does. -/
def Attempt.dynamic (f : FleetConfig S) (x : Externals) (a : Attempt) : Option (Registration S) :=
  if a.constructed then (a.initialPose 10).bind (f.dynamicRegistration x a.mapName a.now) else none

/-! ### Discovery -/

/-- The maps of `RestRobotDiscovery`. -/
structure RestRobotDiscovery where
  robots : String → Option AttemptId
  commandHandles : String → Option AttemptId

/-- A discovery that has added no robot. -/
def RestRobotDiscovery.start : RestRobotDiscovery := ⟨fun _ => none, fun _ => none⟩

/-- `add_dynamic_robot`, and what it returns. -/
def RestRobotDiscovery.addDynamicRobot (f : FleetConfig S) (x : Externals) (robotName : String)
    (a : Attempt) (d : RestRobotDiscovery) (h : FleetHandle S) :
    Bool × RestRobotDiscovery × FleetHandle S :=
  if a.constructed then
    match a.initialPose 10 with
    | none => (false, d, h.pass)
    | some initialPose =>
        let commandHandles := Function.update d.commandHandles robotName (some h.attempts)
        match f.dynamicRegistration x a.mapName a.now initialPose with
        | none => (false, { d with commandHandles }, h.pass)
        | some r =>
            if a.returns then
              (true, { robots := Function.update d.robots robotName (some h.attempts)
                       commandHandles }, h.addRobot robotName r)
            else (false, { d with commandHandles }, h.addRobot robotName r)
  else (false, d, h.pass)

/-- `std::set<std::string>`: the names a scan finds, in order, and what an attempt to add each
would meet. -/
structure Scan where
  names : List String
  sorted : names.Pairwise (· < ·)
  attempt : String → Attempt

/-- The loop of `discover_robots`. -/
def RestRobotDiscovery.discoverRobots (f : FleetConfig S) (x : Externals)
    (attempt : String → Attempt) :
    List String → RestRobotDiscovery × FleetHandle S → RestRobotDiscovery × FleetHandle S
  | [], s => s
  | robotName :: names, (d, h) =>
      discoverRobots f x attempt names
        (if (d.robots robotName).isNone then
          (d.addDynamicRobot f x robotName (attempt robotName) h).2
        else (d, h))

/-! ### The adapter -/

inductive Phase where
  | initializing
  | running
  | stopped
  deriving DecidableEq

/-- The maps of `FleetAdapter`, its discovery, and the fleet handle. -/
structure FleetAdapter (S : Type) where
  phase : Phase
  robots : String → Option AttemptId
  commandHandles : String → Option AttemptId
  discovery : Option RestRobotDiscovery
  fleetHandle : FleetHandle S

inductive FleetAction where
  /-- An iteration of `initialize_static_robots`, over an entry with this name, if it has one. -/
  | static (name : Option String) (a : Attempt)
  /-- `initialize_discovery`, and the start of the update loop. -/
  | start (discovery : Bool)
  /-- The timer's callback, with the scan `discover_robots` makes, if one is due. -/
  | tick (scan : Option Scan)
  | shutdown

/-- An iteration of `initialize_static_robots`. -/
def FleetAdapter.initializeStatic (f : FleetConfig S) (robotName : String) (a : Attempt)
    (s : FleetAdapter S) : FleetAdapter S :=
  match a.static f with
  | none => { s with fleetHandle := s.fleetHandle.pass }
  | some r =>
      let fleetHandle := s.fleetHandle.addRobot robotName r
      if a.returns then
        { s with
          robots := Function.update s.robots robotName (some s.fleetHandle.attempts)
          commandHandles := Function.update s.commandHandles robotName (some s.fleetHandle.attempts)
          fleetHandle }
      else { s with fleetHandle }

/-- The update loop's discovery: the scan, and the merge of the robots discovery knows. -/
def FleetAdapter.discover (f : FleetConfig S) (x : Externals) (scan : Option Scan)
    (s : FleetAdapter S) : FleetAdapter S :=
  match s.discovery with
  | none => s
  | some d =>
      let (d, fleetHandle) :=
        match scan with
        | none => (d, s.fleetHandle)
        | some scan =>
            RestRobotDiscovery.discoverRobots f x scan.attempt scan.names (d, s.fleetHandle)
      { s with
        robots := fun name => (s.robots name).or (d.robots name)
        discovery := some d
        fleetHandle }

def FleetAdapter.step (f : FleetConfig S) (x : Externals) (s : FleetAdapter S) :
    FleetAction → Option (FleetAdapter S)
  | .static name a =>
      if s.phase = .initializing then
        match name with
        | none => some s
        | some robotName => some (s.initializeStatic f robotName a)
      else none
  | .start discovery =>
      if s.phase = .initializing then
        some { s with
          phase := .running
          discovery := if discovery then some .start else none }
      else none
  | .tick scan => if s.phase = .running then some (s.discover f x scan) else none
  | .shutdown =>
      if s.phase = .running then
        some { s with phase := .stopped, robots := fun _ => none, discovery := none }
      else none

/-- One fleet adapter. -/
def fleetAdapter (f : FleetConfig S) (x : Externals) : Lts (FleetAdapter S) FleetAction where
  init := ⟨.initializing, fun _ => none, fun _ => none, none, ⟨0, []⟩⟩
  step := FleetAdapter.step f x

/-- The steps of a fleet adapter. -/
inductive FleetAdapter.Moves (f : FleetConfig S) (x : Externals) (s : FleetAdapter S) :
    FleetAction → FleetAdapter S → Prop where
  | nameless (a : Attempt) : Moves f x s (.static none a) s
  | static (robotName : String) (a : Attempt) (initializing : s.phase = .initializing) :
      Moves f x s (.static (some robotName) a) (s.initializeStatic f robotName a)
  | start (discovery : Bool) (initializing : s.phase = .initializing) :
      Moves f x s (.start discovery)
        { s with
          phase := .running
          discovery := if discovery then some .start else none }
  | tick (scan : Option Scan) (running : s.phase = .running) :
      Moves f x s (.tick scan) (s.discover f x scan)
  | shutdown (running : s.phase = .running) :
      Moves f x s .shutdown { s with phase := .stopped, robots := fun _ => none, discovery := none }

theorem FleetAdapter.step_moves {f : FleetConfig S} {x : Externals} {s s' : FleetAdapter S}
    {a : FleetAction} (h : s.step f x a = some s') : s.Moves f x a s' := by
  cases a with
  | static name a =>
      simp only [step] at h
      split at h
      · rename_i initializing
        cases name with
        | none =>
            cases h
            exact .nameless a
        | some robotName =>
            cases h
            exact .static robotName a initializing
      · cases h
  | start discovery =>
      simp only [step] at h
      split at h
      · rename_i initializing
        cases h
        exact .start discovery initializing
      · cases h
  | tick scan =>
      simp only [step] at h
      split at h
      · rename_i running
        cases h
        exact .tick scan running
      · cases h
  | shutdown =>
      simp only [step] at h
      split at h
      · rename_i running
        cases h
        exact .shutdown running
      · cases h

/-! ### What is to hold -/

/-- The command handle `add_robot` was passed is in one of the maps. -/
def FleetAdapter.Stored (s : FleetAdapter S) (c : AddRobot S) : Prop :=
  s.commandHandles c.robotName = some c.commandHandle ∨
    ∃ d, s.discovery = some d ∧ d.commandHandles c.robotName = some c.commandHandle

/-- Every name is passed to `add_robot` at most once, and its command handle is kept. -/
structure FleetAdapter.AddedOnce (s : FleetAdapter S) : Prop where
  once : (s.fleetHandle.calls.map AddRobot.robotName).Nodup
  stored : ∀ c ∈ s.fleetHandle.calls, s.Stored c

/-- An attempt that gets as far as `add_robot`, which does not raise, is of a robot the adapter does
not know; and the adapter is not shut down once discovery has added a robot. -/
def Unknown (f : FleetConfig S) (x : Externals) (s : FleetAdapter S) : FleetAction → Prop
  | .static name a => ∀ robotName r, name = some robotName → a.static f = some r →
      a.returns = true ∧ s.robots robotName = none
  | .start _ => True
  | .tick scan => ∀ d scanned, s.discovery = some d → scan = some scanned →
      ∀ robotName ∈ scanned.names, d.robots robotName = none →
        ∀ r, (scanned.attempt robotName).dynamic f x = some r →
          (scanned.attempt robotName).returns = true ∧ s.robots robotName = none
  | .shutdown => ∀ d, s.discovery = some d → ∀ robotName, d.robots robotName = none

/-! ### A scan -/

variable {f : FleetConfig S} {x : Externals}

/-- `add_dynamic_robot` fails before it has a pose; or it stores the command handle and fails, has
`add_robot` raise, or adds the robot. -/
theorem RestRobotDiscovery.addDynamicRobot_cases (robotName : String) (a : Attempt)
    (d : RestRobotDiscovery) (h : FleetHandle S) :
    ((a.constructed = false ∨ a.initialPose 10 = none) ∧
      d.addDynamicRobot f x robotName a h = (false, d, h.pass)) ∨
    ¬ (a.constructed = false ∨ a.initialPose 10 = none) ∧
      ∃ handles, handles = Function.update d.commandHandles robotName (some h.attempts) ∧
        (d.addDynamicRobot f x robotName a h = (false, ⟨d.robots, handles⟩, h.pass) ∨
          ∃ r, a.dynamic f x = some r ∧
            (a.returns = false ∧ d.addDynamicRobot f x robotName a h =
                (false, ⟨d.robots, handles⟩, h.addRobot robotName r) ∨
              a.returns = true ∧ d.addDynamicRobot f x robotName a h =
                (true, ⟨Function.update d.robots robotName (some h.attempts), handles⟩,
                  h.addRobot robotName r))) := by
  cases hc : a.constructed with
  | false => exact .inl ⟨.inl rfl, by simp [addDynamicRobot, hc]⟩
  | true =>
      cases hpose : a.initialPose 10 with
      | none => exact .inl ⟨.inr rfl, by simp [addDynamicRobot, hc, hpose]⟩
      | some initialPose =>
          refine .inr ⟨by simp, _, rfl, ?_⟩
          cases hr : f.dynamicRegistration x a.mapName a.now initialPose with
          | none => exact .inl (by simp [addDynamicRobot, hc, hpose, hr])
          | some r =>
              refine .inr ⟨r, by simp [Attempt.dynamic, hc, hpose, hr], ?_⟩
              cases hreturns : a.returns with
              | false => exact .inl ⟨rfl, by simp [addDynamicRobot, hc, hpose, hr, hreturns]⟩
              | true => exact .inr ⟨rfl, by simp [addDynamicRobot, hc, hpose, hr, hreturns]⟩

/-- `AddedOnce`, in the loop of `discover_robots`: `robots` and `commandHandles` are the adapter's
maps. -/
structure Roster (robots commandHandles : String → Option AttemptId) (d : RestRobotDiscovery)
    (h : FleetHandle S) : Prop where
  once : (h.calls.map AddRobot.robotName).Nodup
  known : ∀ c ∈ h.calls, robots c.robotName ≠ none ∨ d.robots c.robotName ≠ none
  stored : ∀ c ∈ h.calls, commandHandles c.robotName = some c.commandHandle ∨
    d.robots c.robotName ≠ none ∧ d.commandHandles c.robotName = some c.commandHandle

section

variable {robots commandHandles : String → Option AttemptId} {d d' : RestRobotDiscovery}
  {h : FleetHandle S} {robotName : String}

/-- Only the handle of a robot that discovery does not know changes. -/
theorem Roster.pass (hr : Roster robots commandHandles d h) (hd : d.robots robotName = none)
    (hrobots : d'.robots = d.robots)
    (hother : ∀ other, other ≠ robotName → d'.commandHandles other = d.commandHandles other) :
    Roster robots commandHandles d' h.pass where
  once := hr.once
  known := by rw [hrobots]; exact hr.known
  stored := by
    intro c hc
    refine (hr.stored c hc).imp_right ?_
    rintro ⟨hin, hhandle⟩
    have hne : c.robotName ≠ robotName := fun e => hin (e ▸ hd)
    exact ⟨hrobots ▸ hin, (hother _ hne).trans hhandle⟩

/-- A name that neither knows has not been added. -/
theorem Roster.ne_of_unknown (hr : Roster robots commandHandles d h)
    (ha : robots robotName = none) (hd : d.robots robotName = none) :
    ∀ c ∈ h.calls, c.robotName ≠ robotName := by
  rintro c hc rfl
  rcases hr.known c hc with hin | hin
  · exact hin ha
  · exact hin hd

theorem nodup_addRobot (hnodup : (h.calls.map AddRobot.robotName).Nodup)
    (hnew : ∀ c ∈ h.calls, c.robotName ≠ robotName) (r : Registration S) :
    ((h.addRobot robotName r).calls.map AddRobot.robotName).Nodup := by
  refine List.nodup_cons.mpr ⟨fun hmem => ?_, hnodup⟩
  obtain ⟨c, hc, e⟩ := List.mem_map.mp hmem
  exact hnew c hc e

/-- A robot is added that neither knows. -/
theorem Roster.add (hr : Roster robots commandHandles d h) (hd : d.robots robotName = none)
    (ha : robots robotName = none) (r : Registration S) :
    Roster robots commandHandles
      ⟨Function.update d.robots robotName (some h.attempts),
        Function.update d.commandHandles robotName (some h.attempts)⟩
      (h.addRobot robotName r) := by
  have hnew := hr.ne_of_unknown ha hd
  refine ⟨nodup_addRobot hr.once hnew r, ?_, ?_⟩
  · intro c hc
    rcases List.mem_cons.mp hc with rfl | hc
    · exact .inr (by simp)
    · exact (hr.known c hc).imp_right fun hin => by simpa [hnew c hc] using hin
  · intro c hc
    rcases List.mem_cons.mp hc with rfl | hc
    · exact .inr (by simp)
    · exact (hr.stored c hc).imp_right fun hin => by simpa [hnew c hc] using hin

theorem Roster.discoverRobots {attempt : String → Attempt} {names : List String}
    (hr : Roster robots commandHandles d h)
    (hnew : ∀ n ∈ names, d.robots n = none → ∀ r, (attempt n).dynamic f x = some r →
      (attempt n).returns = true ∧ robots n = none) :
    Roster robots commandHandles
      (RestRobotDiscovery.discoverRobots f x attempt names (d, h)).1
      (RestRobotDiscovery.discoverRobots f x attempt names (d, h)).2 := by
  induction names generalizing d h with
  | nil => exact hr
  | cons n names ih =>
      have htail := fun m hm => hnew m (List.mem_cons_of_mem n hm)
      simp only [RestRobotDiscovery.discoverRobots]
      split
      · rename_i hd
        have hd := Option.isNone_iff_eq_none.mp hd
        rcases d.addDynamicRobot_cases (f := f) (x := x) n (attempt n) h with
          ⟨-, e⟩ | ⟨-, handles, hhandles, e | ⟨r, hreg, ⟨hraised, -⟩ | ⟨-, e⟩⟩⟩
        · rw [e]
          exact ih (hr.pass hd rfl fun _ _ => rfl) htail
        · rw [e, hhandles]
          exact ih (hr.pass hd rfl fun _ hne => Function.update_of_ne hne _ _) htail
        · obtain ⟨hret, -⟩ := hnew n List.mem_cons_self hd r hreg
          cases hraised.symm.trans hret
        · obtain ⟨-, ha⟩ := hnew n List.mem_cons_self hd r hreg
          rw [e, hhandles]
          refine ih (hr.add hd ha r) fun m hm hnone => htail m hm ?_
          by_cases e : m = n
          · exact e ▸ hd
          · simpa [e] using hnone
      · exact ih hr htail

end

/-! ### Runs -/

/-- The adapter's maps, and discovery's, if there is one. -/
def FleetAdapter.Listed (s : FleetAdapter S) : Prop :=
  Roster s.robots s.commandHandles (s.discovery.getD .start) s.fleetHandle

structure FleetOk (s : FleetAdapter S) : Prop where
  added : s.AddedOnce
  roster : s.phase ≠ .stopped → s.Listed
  initial : s.phase = .initializing → s.discovery = none

theorem FleetAdapter.Listed.addedOnce {s : FleetAdapter S} (h : s.Listed) : s.AddedOnce where
  once := h.once
  stored := by
    intro c hc
    refine (h.stored c hc).imp_right ?_
    rintro ⟨hin, hhandle⟩
    cases hd : s.discovery with
    | none =>
        rw [hd] at hin
        exact absurd rfl hin
    | some d =>
        rw [hd] at hhandle
        exact ⟨d, rfl, hhandle⟩

theorem Roster.mono {robots robots' commandHandles : String → Option AttemptId}
    {d : RestRobotDiscovery} {h : FleetHandle S} (hr : Roster robots commandHandles d h)
    (hle : ∀ name, robots name ≠ none → robots' name ≠ none) :
    Roster robots' commandHandles d h where
  once := hr.once
  known := fun c hc => (hr.known c hc).imp_left (hle _)
  stored := hr.stored

/-- A static robot is added that the adapter does not know. -/
theorem Roster.initializeStatic {s : FleetAdapter S} {robotName : String} {a : Attempt}
    (hr : Roster s.robots s.commandHandles .start s.fleetHandle)
    (ha : ∀ r, a.static f = some r → a.returns = true ∧ s.robots robotName = none) :
    Roster (s.initializeStatic f robotName a).robots
      (s.initializeStatic f robotName a).commandHandles .start
      (s.initializeStatic f robotName a).fleetHandle := by
  unfold FleetAdapter.initializeStatic
  split
  · exact ⟨hr.once, hr.known, hr.stored⟩
  · rename_i r hreg
    obtain ⟨hret, hunknown⟩ := ha r hreg
    have hnew := hr.ne_of_unknown hunknown rfl
    simp only [hret, if_true]
    refine ⟨nodup_addRobot hr.once hnew r, ?_, ?_⟩
    · intro c hc
      rcases List.mem_cons.mp hc with rfl | hc
      · exact .inl (by simp)
      · exact (hr.known c hc).imp_left fun hin => by simpa [hnew c hc] using hin
    · intro c hc
      rcases List.mem_cons.mp hc with rfl | hc
      · exact .inl (by simp)
      · exact (hr.stored c hc).imp_left fun hin => by simpa [hnew c hc] using hin

/-- The merge adds to the adapter's map. -/
theorem Roster.merge {robots commandHandles : String → Option AttemptId} {d : RestRobotDiscovery}
    {h : FleetHandle S} (hr : Roster robots commandHandles d h) :
    Roster (fun name => (robots name).or (d.robots name)) commandHandles d h :=
  hr.mono fun name hname => by
    obtain ⟨i, hi⟩ := Option.ne_none_iff_exists'.mp hname
    simp [hi]

theorem FleetOk.static {s : FleetAdapter S} (hs : FleetOk s) (hphase : s.phase = .initializing)
    {robotName : String} {a : Attempt}
    (ha : ∀ r, a.static f = some r → a.returns = true ∧ s.robots robotName = none) :
    FleetOk (s.initializeStatic f robotName a) := by
  have hd := hs.initial hphase
  have hr : s.Listed := hs.roster (by rw [hphase]; decide)
  have hd' : (s.initializeStatic f robotName a).discovery = none := by
    unfold FleetAdapter.initializeStatic
    split
    · exact hd
    · split <;> exact hd
  have hr' : (s.initializeStatic f robotName a).Listed := by
    unfold FleetAdapter.Listed at hr ⊢
    rw [hd] at hr
    rw [hd']
    exact Roster.initializeStatic hr ha
  exact ⟨hr'.addedOnce, fun _ => hr', fun _ => hd'⟩

theorem FleetOk.discover {s : FleetAdapter S} (hs : FleetOk s) (hphase : s.phase = .running)
    {scan : Option Scan} (ha : Unknown f x s (.tick scan)) : FleetOk (s.discover f x scan) := by
  have hr : s.Listed := hs.roster (by rw [hphase]; decide)
  have hrunning {s' : FleetAdapter S} (hr' : s'.Listed) (hp : s'.phase = s.phase) : FleetOk s' := by
    refine ⟨hr'.addedOnce, fun _ => hr', fun h => ?_⟩
    cases hphase.symm.trans (hp.symm.trans h)
  unfold FleetAdapter.discover
  split
  · exact hs
  · rename_i d hd
    rw [FleetAdapter.Listed, hd, Option.getD_some] at hr
    cases scan with
    | none => exact hrunning hr.merge rfl
    | some scan => exact hrunning (hr.discoverRobots (ha d scan hd rfl)).merge rfl

theorem FleetOk.step {s s' : FleetAdapter S} {a : FleetAction} (hs : FleetOk s)
    (ha : Unknown f x s a) (h : s.step f x a = some s') : FleetOk s' := by
  cases FleetAdapter.step_moves h with
  | nameless => exact hs
  | static robotName a hphase => exact hs.static hphase fun r hr => ha robotName r rfl hr
  | start discovery hphase =>
      have hr : s.Listed := hs.roster (by rw [hphase]; decide)
      rw [FleetAdapter.Listed, hs.initial hphase] at hr
      have hr' : FleetAdapter.Listed { s with
          phase := .running
          discovery := if discovery then some .start else none } := by
        cases discovery <;> exact hr
      exact ⟨hr'.addedOnce, fun _ => hr', fun h => by cases h⟩
  | tick scan hphase => exact hs.discover hphase ha
  | shutdown hphase =>
      have hr := hs.roster (by rw [hphase]; decide)
      refine ⟨⟨hs.added.once, fun c hc => .inl ?_⟩, fun h => absurd rfl h, fun h => by cases h⟩
      rcases hr.stored c hc with hhandle | ⟨hin, -⟩
      · exact hhandle
      · cases hd : s.discovery with
        | none => rw [hd] at hin; exact absurd rfl hin
        | some d => rw [hd] at hin; exact absurd (ha d hd c.robotName) hin

theorem FleetOk.init : FleetOk (fleetAdapter f x).init := by
  have hlisted : (fleetAdapter f x).init.Listed := ⟨List.nodup_nil, nofun, nofun⟩
  exact ⟨hlisted.addedOnce, fun _ => hlisted, fun _ => rfl⟩

/-- **Added once.**  In every run whose attempts are of robots the adapter does not know. -/
theorem added_once {s : FleetAdapter S} (h : (fleetAdapter f x).Reach (Unknown f x) s) :
    s.AddedOnce :=
  (h.invariant FleetOk.init fun _ _ _ ha hstep hs => hs.step ha hstep).added

/-- An attempt at which nothing fails. -/
def smooth : Attempt where
  constructed := true
  poses := fun _ => some ⟨(1, 0), 0⟩
  mapName := "Floor0"
  now := 0
  returns := true

/-- A scan that finds one robot. -/
def sighting (robotName : String) : Scan where
  names := [robotName]
  sorted := List.pairwise_singleton _ _
  attempt := fun _ => smooth

/-- A robot of the configuration, then one that a scan finds. -/
def recruits (found : String) : List FleetAction :=
  [.static (some "robot_1") smooth, .start true, .tick (some (sighting found))]

theorem added_once_recruits : ∃ s : FleetAdapter Unit,
    (s.fleetHandle.calls.map AddRobot.robotName = ["robot_2", "robot_1"]) ∧ s.AddedOnce := by
  refine ⟨_, ?_, added_once (f := oneFloor ⟨0, 1, (1, 0), one_pos⟩) (x := standard)
    ⟨recruits "robot_2", .cons ?_ rfl (.cons trivial rfl (.cons ?_ rfl (.nil _)))⟩⟩
  · rfl
  · rintro _ _ ⟨⟩ -
    exact ⟨rfl, rfl⟩
  · rintro _ _ ⟨⟩ ⟨⟩ n hn - - -
    rw [List.mem_singleton.mp hn]
    exact ⟨rfl, rfl⟩

/-- `add_robot` returns, whatever the attempt. -/
def Returning (_ : FleetAdapter S) : FleetAction → Prop
  | .static _ a => a.returns = true
  | .tick (some scan) => ∀ robotName, (scan.attempt robotName).returns = true
  | .start _ | .tick none | .shutdown => True

/-- A scan finds the robot of the configuration: it is added once more. -/
theorem added_twice :
    ¬ ∀ (f : FleetConfig Unit) (s : FleetAdapter Unit),
      (fleetAdapter f standard).Reach Returning s → s.AddedOnce := by
  intro h
  have hrun : ∃ (f : FleetConfig Unit) (s : FleetAdapter Unit),
      (fleetAdapter f standard).Reach Returning s ∧
      s.fleetHandle.calls.map AddRobot.robotName = ["robot_1", "robot_1"] := by
    refine ⟨oneFloor ⟨0, 1, (1, 0), one_pos⟩, _, ⟨recruits "robot_1",
      .cons rfl rfl (.cons trivial rfl (.cons (fun _ => rfl) rfl (.nil _)))⟩, ?_⟩
    rfl
  obtain ⟨f, s, hs, hcalls⟩ := hrun
  have honce := (h f s hs).once
  rw [hcalls] at honce
  revert honce
  decide

end EgbFleet.Fleet

end
