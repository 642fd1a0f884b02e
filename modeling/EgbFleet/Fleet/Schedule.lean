import EgbFleet.Fleet.RestScan
import EgbFleet.Support.Binary64
import EgbFleet.Support.Simulation
import EgbFleet.Support.Spaced

/-!
# Fleet — when discovery scans

Every tick of `update_loop` calls `discover_robots`, which scans for robots only if a period has
passed since it last did.  A scan asks the router; its answer may be of no use, and the pattern may
raise, where the tick ends without merging the robots discovery knows.

`scans_paced`: so the router is asked at most once in a period, whatever the ticks, and no tick
comes a period or more after the latest scan.  `listed_robot_joins`: a robot that every answer
lists, and that can be added whenever this is attempted, is in the adapter's map once a tick has
come a period after the scan before it was listed.

Times are nanoseconds of `std::chrono::steady_clock`, counted in milliseconds where the code does.
So few milliseconds are compared with the period, a `double`, as what they are; the period is a
quotient, rounded.
-/

noncomputable section

namespace EgbFleet.Fleet

open Frames

variable {S : Type}

/-! ### The period -/

/-- What `RestRobotDiscovery` reads of its configuration; a pattern that does not compile is
`none`. -/
structure DiscoveryConfig where
  robotNamePattern : Option (String → Bool)
  /-- The value of a `double`. -/
  discoveryFrequency : ℚ

/-- `discovery_period_ms`; a division by zero gives an infinite period. -/
def DiscoveryConfig.periodMs (c : DiscoveryConfig) : WithTop ℚ :=
  if c.discoveryFrequency = 0 then ⊤ else Binary64.ofRat (1000 / c.discoveryFrequency)

/-- `elapsed_ms`. -/
def elapsedMs (last now : ℤ) : ℤ := (now - last).tdiv 1000000

/-- `discover_robots` does not return early. -/
def DiscoveryConfig.Due (c : DiscoveryConfig) (lastDiscoveryTime now : ℤ) : Prop :=
  ¬ (0 < lastDiscoveryTime ∧ ((elapsedMs lastDiscoveryTime now : ℚ) : WithTop ℚ) < c.periodMs)

instance (c : DiscoveryConfig) (lastDiscoveryTime now : ℤ) :
    Decidable (c.Due lastDiscoveryTime now) :=
  inferInstanceAs (Decidable (¬ (_ ∧ _)))

/-- The period, as the code counts it: whole milliseconds, rounded up. -/
def DiscoveryConfig.period (c : DiscoveryConfig) : WithTop ℤ :=
  c.periodMs.map fun ms => ⌈ms⌉ * 1000000

theorem DiscoveryConfig.period_pos {c : DiscoveryConfig} (hc : 0 ≤ c.discoveryFrequency) :
    0 < c.period := by
  have hms : 0 < c.periodMs := by
    unfold periodMs
    split
    · exact WithTop.top_pos
    · rename_i hne
      exact Binary64.ofRat_pos (div_pos (by norm_num) (lt_of_le_of_ne' hc hne))
  unfold period
  cases hperiod : c.periodMs with
  | top => exact WithTop.top_pos
  | coe ms =>
      rw [hperiod] at hms
      exact WithTop.coe_pos.mpr (mul_pos (Int.ceil_pos.mpr (WithTop.coe_pos.mp hms)) (by norm_num))

theorem DiscoveryConfig.due_iff {c : DiscoveryConfig} {last now : ℤ} (hle : last ≤ now) :
    c.Due last now ↔ last ≤ 0 ∨ last + c.period ≤ now := by
  have hms : elapsedMs last now = (now - last) / 1000000 :=
    Int.tdiv_eq_ediv_of_nonneg (sub_nonneg.mpr hle)
  have hlt : (((elapsedMs last now : ℤ) : ℚ) : WithTop ℚ) < c.periodMs ↔
      (now : WithTop ℤ) < last + c.period := by
    unfold period
    cases c.periodMs with
    | top => simp
    | coe ms =>
        rw [WithTop.coe_lt_coe, hms, WithTop.map_coe, ← WithTop.coe_add, WithTop.coe_lt_coe,
          ← Int.lt_ceil, Int.ediv_lt_iff_lt_mul (by norm_num), sub_lt_iff_lt_add']
  rw [Due, hlt, not_and_or, not_lt, not_lt]

/-! ### The adapter, with its clock -/

/-- The adapter, with `last_discovery_time_`, and when `discover_robots` was called and when it
scanned, the newest first. -/
structure Schedule (S : Type) where
  fleet : FleetAdapter S
  lastDiscoveryTime : ℤ
  ticks : List ℤ
  scans : List ℤ

inductive ScheduleAction where
  | static (name : Option String) (a : Attempt)
  | start (discovery : Bool)
  /-- A tick, with what the router would answer, and what an attempt to add each robot would
  meet. -/
  | tick (now : ℤ) (response : Response) (attempt : String → Attempt)
  | shutdown

section

variable (f : FleetConfig S) (x : Externals) (c : DiscoveryConfig)

/-- `discover_robots` scans, and the tick merges what discovery then knows. -/
def Schedule.scan (s : Schedule S) (now : ℤ) (response : Response) (attempt : String → Attempt) :
    Schedule S :=
  { s with
    fleet :=
      match scanForRobotsViaRest c.robotNamePattern response with
      | .error _ => s.fleet
      | .ok discovered => s.fleet.discover f x (some (Scan.ofDiscovered discovered attempt))
    lastDiscoveryTime := now
    scans := now :: s.scans }

/-- The discovery of a tick. -/
def Schedule.tick (s : Schedule S) (now : ℤ) (response : Response) (attempt : String → Attempt) :
    Schedule S :=
  match s.fleet.discovery with
  | none => s
  | some _ =>
      let s := { s with ticks := now :: s.ticks }
      if c.Due s.lastDiscoveryTime now then s.scan f x c now response attempt
      else { s with fleet := s.fleet.discover f x none }

/-- The adapter takes a step. -/
def Schedule.move (s : Schedule S) (a : FleetAction) : Option (Schedule S) :=
  (s.fleet.step f x a).map fun fleet => { s with fleet }

def Schedule.step (s : Schedule S) : ScheduleAction → Option (Schedule S)
  | .static name a => s.move f x (.static name a)
  | .start discovery => s.move f x (.start discovery)
  | .tick now response attempt =>
      if s.fleet.phase = .running then some (s.tick f x c now response attempt) else none
  | .shutdown => s.move f x .shutdown

/-- One fleet adapter. -/
def schedule : Lts (Schedule S) ScheduleAction where
  init := ⟨(fleetAdapter f x).init, 0, [], []⟩
  step := Schedule.step f x c

/-- What the adapter does, if it is not a tick. -/
def ScheduleAction.fleetAction? : ScheduleAction → Option FleetAction
  | .static name a => some (.static name a)
  | .start discovery => some (.start discovery)
  | .shutdown => some .shutdown
  | .tick _ _ _ => none

/-- `Schedule.step`, by what a tick does. -/
inductive Schedule.Moves (s : Schedule S) : ScheduleAction → Schedule S → Prop where
  | fleet {a : ScheduleAction} {b : FleetAction} {fleet : FleetAdapter S}
      (same : a.fleetAction? = some b) (step : s.fleet.step f x b = some fleet) :
      Moves s a { s with fleet }
  | noDiscovery (now : ℤ) (response : Response) (attempt : String → Attempt)
      (missing : s.fleet.discovery = none) : Moves s (.tick now response attempt) s
  | scans (now : ℤ) (response : Response) (attempt : String → Attempt)
      {d : RestRobotDiscovery} (running : s.fleet.phase = .running)
      (found : s.fleet.discovery = some d) (due : c.Due s.lastDiscoveryTime now) :
      Moves s (.tick now response attempt)
        (Schedule.scan f x c { s with ticks := now :: s.ticks } now response attempt)
  | waits (now : ℤ) (response : Response) (attempt : String → Attempt)
      {d : RestRobotDiscovery} (running : s.fleet.phase = .running)
      (found : s.fleet.discovery = some d) (notDue : ¬ c.Due s.lastDiscoveryTime now) :
      Moves s (.tick now response attempt)
        { s with
          ticks := now :: s.ticks
          fleet := s.fleet.discover f x none }

end

variable {f : FleetConfig S} {x : Externals} {c : DiscoveryConfig} {s s' t : Schedule S}
  {a : ScheduleAction}

theorem Schedule.step_moves (h : s.step f x c a = some s') : s.Moves f x c a s' := by
  have move {b : FleetAction} (h : s.move f x b = some s') (hsame : a.fleetAction? = some b) :
      s.Moves f x c a s' := by
    obtain ⟨fleet, hstep, rfl⟩ := Option.map_eq_some_iff.mp h
    exact .fleet hsame hstep
  cases a with
  | static name a => exact move h rfl
  | start discovery => exact move h rfl
  | shutdown => exact move h rfl
  | tick now response attempt =>
      simp only [step] at h
      split at h
      · rename_i running
        cases h
        unfold tick
        split
        · rename_i missing
          exact .noDiscovery now response attempt missing
        · rename_i d found
          dsimp only
          split
          · rename_i due
            exact .scans now response attempt running found due
          · rename_i notDue
            exact .waits now response attempt running found notDue
      · cases h

/-- A run of the adapter with its clock is one of the adapter. -/
theorem Schedule.refines {P : Schedule S → ScheduleAction → Prop}
    (h : (schedule f x c).Reach P s) :
    (fleetAdapter f x).Reach (fun _ _ => True) s.fleet := by
  refine (Lts.Reach.simulates (M := fleetAdapter f x) (Q := fun _ _ => True) (f := Schedule.fleet)
    (I := fun _ => True) ?_ rfl trivial h).2
  intro s a s' _ hstep _
  refine ⟨trivial, ?_⟩
  cases Schedule.step_moves hstep with
  | fleet same step => exact ⟨_, .one trivial step⟩
  | noDiscovery => exact ⟨[], .nil _⟩
  | scans now response attempt running =>
      simp only [Schedule.scan]
      split
      · exact ⟨[], .nil _⟩
      · exact ⟨[.tick _], .one trivial (if_pos running)⟩
  | waits now response attempt running =>
      exact ⟨[.tick none], .one trivial (if_pos running)⟩

/-! ### Pace -/

/-- The clock is positive, and does not go back. -/
def Clock (s : Schedule S) : ScheduleAction → Prop
  | .tick now _ _ => 0 < now ∧ ∀ last ∈ s.ticks.head?, last ≤ now
  | .static _ _ | .start _ | .shutdown => True

/-- The scans are a period apart, and no tick is a period after the latest. -/
structure Paced (c : DiscoveryConfig) (s : Schedule S) : Prop where
  last : s.scans.head?.getD 0 = s.lastDiscoveryTime
  le : s.lastDiscoveryTime ≤ s.ticks.head?.getD 0
  pos : ∀ t ∈ s.scans, 0 < t
  spaced : Log.Spaced c.period s.scans
  near : ∀ t ∈ s.ticks, ∃ t' ∈ s.scans, t' ≤ t ∧ (t : WithTop ℤ) < t' + c.period

theorem Paced.init : Paced c (schedule f x c).init where
  last := rfl
  le := le_rfl
  pos := nofun
  spaced := List.Pairwise.nil
  near := nofun

/-- The clock has come as far as the latest scan. -/
theorem Paced.le_now (hs : Paced c s) {now : ℤ} {response : Response} {attempt : String → Attempt}
    (hclock : Clock s (.tick now response attempt)) : s.lastDiscoveryTime ≤ now := by
  refine hs.le.trans ?_
  cases hticks : s.ticks.head? with
  | none => exact hclock.1.le
  | some last => exact hclock.2 last hticks

theorem Paced.step (hc : 0 ≤ c.discoveryFrequency) (hclock : Clock s a)
    (h : s.Moves f x c a s') (hs : Paced c s) : Paced c s' := by
  cases h with
  | fleet | noDiscovery => exact ⟨hs.last, hs.le, hs.pos, hs.spaced, hs.near⟩
  | scans now response attempt running found due =>
      have hdue := (c.due_iff (hs.le_now hclock)).mp due
      refine ⟨rfl, le_rfl, ?_, hs.spaced.cons (c.period_pos hc).le fun t ht => ?_, ?_⟩
      · intro t ht
        rcases List.mem_cons.mp ht with rfl | ht
        · exact hclock.1
        · exact hs.pos t ht
      · obtain rfl : t = s.lastDiscoveryTime := by rw [← hs.last, ht, Option.getD_some]
        exact hdue.resolve_left (hs.pos _ (List.mem_of_mem_head? ht)).not_ge
      · intro t ht
        rcases List.mem_cons.mp ht with rfl | ht
        · refine ⟨t, List.mem_cons_self, le_rfl, ?_⟩
          simpa using WithTop.add_lt_add_left (WithTop.coe_ne_top (a := t)) (c.period_pos hc)
        · obtain ⟨t', ht', hle, hlt⟩ := hs.near t ht
          exact ⟨t', List.mem_cons_of_mem now ht', hle, hlt⟩
  | waits now response attempt running found notDue =>
      have hle := hs.le_now hclock
      have hnot := mt (c.due_iff hle).mpr notDue
      rw [not_or, not_le, not_le] at hnot
      refine ⟨hs.last, hle, hs.pos, hs.spaced, fun t ht => ?_⟩
      rcases List.mem_cons.mp ht with rfl | ht
      · refine ⟨s.lastDiscoveryTime, ?_, hle, hnot.2⟩
        -- there has been a scan, or there would be one now
        cases hscans : s.scans with
        | nil =>
            have hlast := hs.last
            rw [hscans] at hlast
            exact absurd hnot.1 (hlast ▸ lt_irrefl 0)
        | cons last scans =>
            rw [← hs.last, hscans]
            exact List.mem_cons_self
      · exact hs.near t ht

theorem Paced.reach (hc : 0 ≤ c.discoveryFrequency)
    (h : (schedule f x c).Reach Clock s) : Paced c s :=
  h.invariant .init fun _ _ _ hclock hstep hs => hs.step hc hclock (Schedule.step_moves hstep)

/-- Nothing fails in an attempt to add the robot. -/
def Attempt.Succeeds (f : FleetConfig S) (x : Externals) (a : Attempt) : Prop :=
  a.returns = true ∧ ∃ r, a.dynamic f x = some r

/-- The router would list the robot, and it would be added. -/
def Lists (f : FleetConfig S) (x : Externals) (c : DiscoveryConfig) (name : String) :
    ScheduleAction → Prop
  | .tick _ response attempt =>
      (∃ discovered, scanForRobotsViaRest c.robotNamePattern response = .ok discovered ∧
        name ∈ discovered) ∧ (attempt name).Succeeds f x
  | .shutdown => False
  | .static _ _ | .start _ => True

theorem RestRobotDiscovery.robots_addDynamicRobot_ne_none {robotName name : String}
    {d : RestRobotDiscovery} (hd : d.robots name ≠ none) (a : Attempt) (h : FleetHandle S) :
    (d.addDynamicRobot f x robotName a h).2.1.robots name ≠ none := by
  rcases d.addDynamicRobot_cases (f := f) (x := x) robotName a h with
    ⟨-, e⟩ | ⟨-, handles, -, e | ⟨r, -, ⟨-, e⟩ | ⟨-, e⟩⟩⟩
  · rwa [e]
  · rwa [e]
  · rwa [e]
  · rw [e]
    dsimp only
    by_cases hname : name = robotName
    · simp [hname]
    · rwa [Function.update_of_ne hname]

/-- An attempt at which nothing fails adds the robot. -/
theorem RestRobotDiscovery.robots_addDynamicRobot_self {name : String} {a : Attempt}
    (ha : a.Succeeds f x) (d : RestRobotDiscovery) (h : FleetHandle S) :
    (d.addDynamicRobot f x name a h).2.1.robots name ≠ none := by
  obtain ⟨hreturns, r, hr⟩ := ha
  simp only [Attempt.dynamic] at hr
  split at hr
  · rename_i hconstructed
    obtain ⟨initialPose, hpose, hr⟩ := Option.bind_eq_some_iff.mp hr
    simp [addDynamicRobot, hconstructed, hpose, hr, hreturns]
  · cases hr

/-- The loop keeps the robots that are known. -/
theorem RestRobotDiscovery.robots_discoverRobots_ne_none {attempt : String → Attempt}
    {names : List String} {name : String} {d : RestRobotDiscovery} (hd : d.robots name ≠ none)
    (h : FleetHandle S) : (discoverRobots f x attempt names (d, h)).1.robots name ≠ none := by
  induction names generalizing d h with
  | nil => exact hd
  | cons robotName names ih =>
      simp only [discoverRobots]
      split
      · exact ih (robots_addDynamicRobot_ne_none hd (attempt robotName) h) _
      · exact ih hd h

/-- It adds a robot it goes through, if nothing fails. -/
theorem RestRobotDiscovery.robots_discoverRobots_of_mem {attempt : String → Attempt}
    {names : List String} {name : String} (hname : name ∈ names)
    (ha : (attempt name).Succeeds f x) (d : RestRobotDiscovery) (h : FleetHandle S) :
    (discoverRobots f x attempt names (d, h)).1.robots name ≠ none := by
  induction names generalizing d h with
  | nil => cases hname
  | cons robotName names ih =>
      simp only [discoverRobots]
      rcases List.mem_cons.mp hname with rfl | hname
      · split
        · exact robots_discoverRobots_ne_none (robots_addDynamicRobot_self ha d h) _
        · rename_i hknown
          exact robots_discoverRobots_ne_none (fun e => hknown (Option.isNone_iff_eq_none.mpr e)) h
      · exact ih hname _ _

/-- The merge keeps the robots the adapter knows. -/
theorem FleetAdapter.robots_discover_ne_none (f : FleetConfig S) (x : Externals)
    {fleet : FleetAdapter S} {name : String} (scan : Option Scan)
    (h : fleet.robots name ≠ none) : (fleet.discover f x scan).robots name ≠ none := by
  obtain ⟨i, hi⟩ := Option.ne_none_iff_exists'.mp h
  unfold discover
  split
  · exact h
  · simp [hi]

/-- It takes over a robot that a scan has added. -/
theorem FleetAdapter.robots_discover_of_mem {fleet : FleetAdapter S} {name : String} {scan : Scan}
    {d : RestRobotDiscovery} (hd : fleet.discovery = some d) (hname : name ∈ scan.names)
    (ha : (scan.attempt name).Succeeds f x) :
    (fleet.discover f x (some scan)).robots name ≠ none := by
  have hadded := d.robots_discoverRobots_of_mem hname ha fleet.fleetHandle
  simp only [discover, hd, Ne, Option.or_eq_none_iff]
  exact fun h => hadded h.2

theorem FleetAdapter.discovery_discover (f : FleetConfig S) (x : Externals)
    {fleet : FleetAdapter S} (hd : fleet.discovery ≠ none) (scan : Option Scan) :
    (fleet.discover f x scan).discovery ≠ none := by
  obtain ⟨d, hd⟩ := Option.ne_none_iff_exists'.mp hd
  simp [discover, hd]

theorem FleetAdapter.phase_discover (f : FleetConfig S) (x : Externals) (fleet : FleetAdapter S)
    (scan : Option Scan) : (fleet.discover f x scan).phase = fleet.phase := by
  unfold discover
  split <;> rfl

/-- Discovery is running, and the robot is in the adapter's map, or no tick has been due. -/
structure Joining (c : DiscoveryConfig) (name : String) (last : ℤ) (as : List ScheduleAction)
    (s : Schedule S) : Prop where
  paced : Paced c s
  discovery : s.fleet.discovery ≠ none
  running : s.fleet.phase = .running
  joined : s.fleet.robots name ≠ none ∨ s.lastDiscoveryTime = last ∧
    ∀ (now : ℤ) response attempt, .tick now response attempt ∈ as →
      0 < last ∧ (now : WithTop ℤ) < last + c.period

theorem Joining.step (hc : 0 ≤ c.discoveryFrequency) {name : String} {last : ℤ}
    {as : List ScheduleAction} (hs : Joining c name last as s) (hclock : Clock s a)
    (hlists : Lists f x c name a) (h : s.Moves f x c a s') :
    Joining c name last (as ++ [a]) s' := by
  have hpaced := hs.paced.step hc hclock h
  cases h with
  | fleet same step =>
      -- the adapter is past its initialisation, and is not shut down
      cases a with
      | static robotName a =>
          cases same
          simp [FleetAdapter.step, hs.running] at step
      | start discovery =>
          cases same
          simp [FleetAdapter.step, hs.running] at step
      | shutdown => exact hlists.elim
      | tick => cases same
  | noDiscovery now response attempt missing => exact absurd missing hs.discovery
  | scans now response attempt running found due =>
      obtain ⟨⟨discovered, hanswer, hmem⟩, ha⟩ := hlists
      have hname : name ∈ (Scan.ofDiscovered discovered attempt).names :=
        (Finset.mem_sort _).mpr hmem
      have hfleet : (Schedule.scan f x c { s with ticks := now :: s.ticks } now response
          attempt).fleet = s.fleet.discover f x (some (Scan.ofDiscovered discovered attempt)) := by
        simp only [Schedule.scan, hanswer]
      refine ⟨hpaced, ?_, ?_, .inl ?_⟩
      · rw [hfleet]
        exact FleetAdapter.discovery_discover f x hs.discovery _
      · rw [hfleet, FleetAdapter.phase_discover]
        exact running
      · rw [hfleet]
        exact FleetAdapter.robots_discover_of_mem found hname ha
  | waits now response attempt running found notDue =>
      refine ⟨hpaced, FleetAdapter.discovery_discover f x hs.discovery none,
        (s.fleet.phase_discover f x none).trans running, ?_⟩
      rcases hs.joined with hknown | ⟨hlast, hticks⟩
      · exact .inl (FleetAdapter.robots_discover_ne_none f x none hknown)
      · have hnot := mt (c.due_iff (hs.paced.le_now hclock)).mpr notDue
        rw [not_or, not_le, not_le, hlast] at hnot
        refine .inr ⟨hlast, fun now' response' attempt' hmem => ?_⟩
        rcases List.mem_append.mp hmem with hmem | hmem
        · exact hticks now' response' attempt' hmem
        · cases List.mem_singleton.mp hmem
          exact hnot

/-- **A robot that is listed joins.**  As long as every answer lists a robot, and it can be added,
it is in the adapter's map, or no tick has come a period after the scan before. -/
theorem listed_robot_joins (hc : 0 ≤ c.discoveryFrequency) {name : String}
    {as : List ScheduleAction} (hs : (schedule f x c).Reach Clock s)
    (hrunning : s.fleet.phase = .running) (hdiscovery : s.fleet.discovery ≠ none)
    (hrun : (schedule f x c).Run (fun s a => Clock s a ∧ Lists f x c name a) s as t) :
    t.fleet.robots name ≠ none ∨
      ∀ (now : ℤ) response attempt, .tick now response attempt ∈ as →
        0 < s.lastDiscoveryTime ∧ (now : WithTop ℤ) < s.lastDiscoveryTime + c.period := by
  have hinit : Joining c name s.lastDiscoveryTime [] s :=
    ⟨Paced.reach hc hs, hdiscovery, hrunning, .inr ⟨rfl, nofun⟩⟩
  have ht : Joining c name s.lastDiscoveryTime as t :=
    hrun.trace (I := Joining c name s.lastDiscoveryTime) hinit fun _ _ _ _ _ h hstep hs =>
      hs.step hc h.1 h.2 (Schedule.step_moves hstep)
  exact ht.joined.imp_right And.right

/-! ### A run -/

section

variable {d : RestRobotDiscovery} {now : ℤ}

theorem Schedule.reach_scans (hs : (schedule f x c).Reach Clock s)
    (running : s.fleet.phase = .running) (found : s.fleet.discovery = some d)
    (due : c.Due s.lastDiscoveryTime now) (response : Response) (attempt : String → Attempt)
    (hclock : Clock s (.tick now response attempt)) :
    (schedule f x c).Reach Clock
      (Schedule.scan f x c { s with ticks := now :: s.ticks } now response attempt) :=
  hs.step hclock (by simp [schedule, step, tick, running, found, due])

theorem Schedule.reach_waits (hs : (schedule f x c).Reach Clock s)
    (running : s.fleet.phase = .running) (found : s.fleet.discovery = some d)
    (notDue : ¬ c.Due s.lastDiscoveryTime now) (response : Response) (attempt : String → Attempt)
    (hclock : Clock s (.tick now response attempt)) :
    (schedule f x c).Reach Clock
      { s with ticks := now :: s.ticks, fleet := s.fleet.discover f x none } :=
  hs.step hclock (by simp [schedule, step, tick, running, found, notDue])

end

/-- Robots of one name, looked for every two seconds. -/
def everyTwoSeconds : DiscoveryConfig := ⟨some (· == "robot_1"), 1 / 2⟩

theorem period_everyTwoSeconds : everyTwoSeconds.period = (2000000000 : ℤ) := by
  have hquotient : (1000 / everyTwoSeconds.discoveryFrequency : ℚ) = (2000 : ℕ) := by
    norm_num [everyTwoSeconds]
  have hne : everyTwoSeconds.discoveryFrequency ≠ 0 := by norm_num [everyTwoSeconds]
  rw [DiscoveryConfig.period, DiscoveryConfig.periodMs, if_neg hne, hquotient,
    Binary64.ofRat_natCast (by norm_num), WithTop.map_coe, Int.ceil_natCast]
  rfl

theorem frequency_everyTwoSeconds : 0 ≤ everyTwoSeconds.discoveryFrequency := by
  norm_num [everyTwoSeconds]

/-- The router lists the robot. -/
def listing : Response := .answered 200 (some (.array [routeEntry (.string "robot_1/tf")]))

/-- The adapter, with this transform of its floor. -/
abbrev everyTwo (T : Transformation) : Lts (Schedule Unit) ScheduleAction :=
  schedule (oneFloor T) standard everyTwoSeconds

/-- The first tick scans, to no avail, and the second does not. -/
theorem exists_reach_everyTwo (T : Transformation) :
    ∃ s, (everyTwo T).Reach Clock s ∧ s.fleet.phase = .running ∧ s.fleet.discovery ≠ none ∧
      s.lastDiscoveryTime = 1 ∧ s.ticks = [1000000000, 1] ∧ s.scans = [1] := by
  have hdue : everyTwoSeconds.Due 0 1 :=
    (everyTwoSeconds.due_iff (by norm_num)).mpr (.inl le_rfl)
  have hnot : ¬ everyTwoSeconds.Due 1 1000000000 := by
    rw [everyTwoSeconds.due_iff (by norm_num), period_everyTwoSeconds, ← WithTop.coe_add,
      WithTop.coe_le_coe]
    norm_num
  have hstart : (everyTwo T).Reach Clock
      ⟨⟨.running, fun _ => none, fun _ => none, some .start, ⟨0, []⟩⟩, 0, [], []⟩ :=
    Lts.Reach.init.step (a := .start true) trivial rfl
  have hscan := Schedule.reach_scans hstart rfl rfl hdue .failed (fun _ => smooth)
    ⟨by norm_num, nofun⟩
  have hwait := Schedule.reach_waits hscan rfl rfl hnot .failed (fun _ => smooth)
    ⟨by norm_num, fun last hlast => by cases hlast; norm_num⟩
  exact ⟨_, hwait, rfl, Option.some_ne_none _, rfl, rfl, rfl⟩

theorem succeeds_smooth : smooth.Succeeds (oneFloor ⟨0, 1, (1, 0), one_pos⟩) standard :=
  ⟨rfl, _, rfl⟩

theorem lists_listing (now : ℤ) :
    Lists (oneFloor ⟨0, 1, (1, 0), one_pos⟩) standard everyTwoSeconds "robot_1"
      (.tick now listing fun _ => smooth) := by
  refine ⟨⟨_, rfl, ?_⟩, succeeds_smooth⟩
  decide

/-- The third tick comes a period after the first, and finds the robot. -/
theorem listed_robot_joins_metreOff :
    ∃ s t, (everyTwo ⟨0, 1, (1, 0), one_pos⟩).Reach Clock s ∧
      (everyTwo ⟨0, 1, (1, 0), one_pos⟩).step s (.tick 2000000001 listing fun _ => smooth) =
          some t ∧
        t.fleet.robots "robot_1" ≠ none := by
  obtain ⟨s, hs, hrunning, hdiscovery, hlast, hticks, -⟩ :=
    exists_reach_everyTwo ⟨0, 1, (1, 0), one_pos⟩
  have hclock : Clock s (.tick 2000000001 listing fun _ => smooth) := by
    refine ⟨by norm_num, fun last hmem => ?_⟩
    rw [hticks] at hmem
    cases hmem
    norm_num
  refine ⟨s, _, hs, if_pos hrunning, ?_⟩
  refine (listed_robot_joins frequency_everyTwoSeconds hs hrunning hdiscovery
    (.cons ⟨hclock, lists_listing 2000000001⟩ (if_pos hrunning) (.nil _))).resolve_right ?_
  intro h
  obtain ⟨-, hlt⟩ := h _ _ _ (List.mem_singleton_self _)
  rw [hlast, period_everyTwoSeconds, ← WithTop.coe_add, WithTop.coe_lt_coe] at hlt
  norm_num at hlt

end EgbFleet.Fleet

end
