import EgbFleet.Navigation.Machine
import EgbFleet.Recovery.Deadlock
import EgbFleet.Robot.Position

/-!
# Robot — the machine

One robot's `RobotState`, `PathHandle` and navigation stack together.  `navigation` leaves out where
the arguments of its calls come from, what an update tells RMF besides a replan, and
`check_deadlock_recovery`; here they are.

* A call of RMF's (`RmfCall`) first reads the position and the nearby lanes, in a critical section
  of `position_mutex_`, and works out its arguments; what follows is a call of the navigation stack.
* An update (`Tick`) reads the session for the lanes to report, stores the position and the lanes
  nearby, drains the feedback, takes the failure, and ends in `check_deadlock_recovery`, which reads
  the session again, its two flags one after the other.
* Zenoh's callbacks are those of the navigation stack, and the battery's.

What is told is kept, newest first, with the log of the navigation stack at that time, and at the
time the session it is about was read.  RMF's calls return; `current_position_` has no initial
value, and may be anything before the first update.
-/

noncomputable section

namespace EgbFleet.Robot

open Frames Paths

variable {G : Type}

/-! ### The calls of RMF -/

inductive RmfCall (G : Type) where
  | followNewPath (plan : List RoutePoint) (estimator finished : Bool) (net : Network G)
  | stop
  | dock (dockName : String) (finished : Bool) (net : Network G)
  /-- An `UndockAction`'s `update_action`, so many whole seconds after it was made. -/
  | updateAction (a : ActionId) (elapsed now : ℤ) (context : UndockContext)
      (navigationInterface : Bool) (net : Network G)
  | cancelNavigation

/-- A call whose arguments have been worked out, and its plan. -/
structure Prepared (G : Type) where
  call : Call G WaypointMsg
  plan : List RoutePoint := []

/-- The waypoints of the plan, and the lanes it arrives by, are of the graph. -/
def OnGraph (g : Graph (ℝ × ℝ)) (plan : List RoutePoint) : Prop :=
  ∀ w ∈ plan, (∀ i ∈ w.approachLanes, i < g.lanes.length) ∧
    ∀ i ∈ w.graphIndex, i < g.waypoints.length

/-- `follow_new_path`, up to the session it makes.  An error is `std::out_of_range`, of
`get_waypoint` or of `get_lane`. -/
def Site.prepareFollow (site : Site) (currentPosition : Pose) (plan : List RoutePoint)
    (estimator finished : Bool) (net : Network G) : Except Unit (Prepared G) :=
  let approachYaw :=
    match plan with
    | [w] => approachYawFor (some site.graph) currentPosition w.graphIndex
    | _ => .ok none
  match approachYaw with
  | .error e => .error e
  | .ok approachYaw =>
      let plan' := plan.map RoutePoint.toPlanWaypoint
      match waypointSpeedLimits site.graph plan' with
      | .error e => .error e
      | .ok limits =>
          .ok
            { call := .followNewPath
                (followWaypoints site.externals site.coordinateTransforms plan' approachYaw)
                limits estimator finished net
              plan }

/-- A call, up to its first step in the navigation stack. -/
def RmfCall.prepare (site : Site) (currentPosition : Pose) (nearbyLanes : List ℕ) :
    RmfCall G → Except Unit (Prepared G)
  | .followNewPath plan estimator finished net =>
      site.prepareFollow currentPosition plan estimator finished net
  | .stop => .ok { call := .stop }
  | .dock dockName finished net =>
      match PathHandle.dock site.externals dockName
          ⟨site.coordinateTransforms, some site.graph, true, nearbyLanes⟩ with
      | .raised => .error ()
      | .finished => .ok { call := .dock none finished net }
      | .undock path => .ok { call := .dock (some path) finished net }
  | .updateAction a elapsed now context navigationInterface net =>
      let env : UndockEnv WaypointMsg :=
        { timedOut := decide (60 < elapsed)
          path := (handlePlanning site.externals site.computePlanStarts elapsed now context).map
            navigationWaypoints
          navigationInterface }
      .ok { call := .updateAction a env net }
  | .cancelNavigation => .ok { call := .cancelNavigation }

/-! ### The update -/

/-- What `update` reads at its start. -/
structure Job where
  rmfPose : Pose
  batterySoc : ℝ

/-- Where `RobotState::update` is. -/
inductive Tick (G : Type) where
  | idle
  -- `get_navigation_lanes` reads the session it holds
  | lanes (job : Job) (seen : List (Event G WaypointMsg)) (i : SessionId)
  -- before `PathHandle::update_position`
  | position (job : Job)
  -- `drain_pending_feedback`, `take_pending_failure` and `replan`
  | drain (job : Job)
  -- before `update_battery_soc` and `check_deadlock_recovery`
  | recovery (job : Job)
  -- `check_deadlock_recovery` reads the session it holds: `done`, then `failure_reason`
  | done (job : Job) (seen : List (Event G WaypointMsg)) (now : ℤ) (i : SessionId)
  | reason (job : Job) (seen : List (Event G WaypointMsg)) (now : ℤ) (i : SessionId)

/-- What an update tells RMF, besides the arrivals and replans of the navigation stack's log. -/
inductive Told where
  /-- `update_position(rmf_pose, lanes)`, the lanes of path `p`. -/
  | onLanes (p : SessionId) (rmfPose : Pose) (lanes : List ℕ)
  /-- `update_position(graph_index, orientation)`, the index of path `p`. -/
  | atWaypoint (p : SessionId) (graphIndex : ℕ) (orientation : ℝ)
  | onMap (mapName : String) (rmfPose : Pose)
      (maxMergeWaypointDistance maxMergeLaneDistance : ℝ)
  | batterySoc (soc : ℝ)
  /-- A call of `check_deadlock_recovery`, with what it did. -/
  | checked (c : Recovery.Call Pose)

structure Report (G : Type) where
  told : Told
  /-- The log when the session was read. -/
  seen : List (Event G WaypointMsg)
  log : List (Event G WaypointMsg)

structure State (G : Type) where
  nav : EgbFleet.State G WaypointMsg
  /-- The executor's call, before its first step in the navigation stack. -/
  ready : Option (Prepared G)
  /-- The plan each session was made for. -/
  plans : SessionId → List RoutePoint
  currentPosition : Pose
  nearbyLanes : List ℕ
  update : Tick G
  batterySoc : ℝ
  recovery : Recovery.RobotState Pose
  told : List (Report G)
  /-- Whether a call of RMF's has raised. -/
  raised : Bool

/-- What an update finds: whether RMF has passed it an update handle, what TF returns, and the
clock. -/
structure Observation where
  updateHandle : Bool
  transform : Option RosPose
  now : ℤ

/-- The navigation stack, after a step of its update. -/
def updated (s : EgbFleet.State G WaypointMsg) : EgbFleet.State G WaypointMsg :=
  { s with mem := (s.update.step s.mem).1, update := (s.update.step s.mem).2 }

/-- `update_position` by `map_name`. -/
def Site.onMap (site : Site) (rmfPose : Pose) : Told := .onMap site.mapName rmfPose 1 1

/-- What the lane-aware overloads of `update_position` are passed, or else the one by
`map_name`. -/
def Site.positionOf (site : Site) (p : SessionId) (rmfPose : Pose) :
    Option NavigationLaneInfo → Told
  | none => site.onMap rmfPose
  | some info =>
      if info.lanes.isEmpty then
        match info.graphIndex with
        | none => site.onMap rmfPose
        | some graphIndex => .atWaypoint p graphIndex rmfPose.yaw
      else .onLanes p rmfPose info.lanes

namespace State

def tell (seen : List (Event G WaypointMsg)) (told : Told) (s : State G) : State G :=
  { s with told := ⟨told, seen, s.nav.mem.log⟩ :: s.told }

/-- `check_deadlock_recovery`, of the session it has read, to the end of the update. -/
def check (site : Site) (job : Job) (seen : List (Event G WaypointMsg)) (now : ℤ)
    (session : Option (NavigationSession G)) (s : State G) : State G :=
  let r := s.recovery.checkDeadlockRecovery now session site.mapName job.rmfPose
  { s with
    recovery := r.1
    nav := { s.nav with update := .idle }
    update := .idle
    told := ⟨.checked ⟨now, session.any NavigationSession.blocked, r.2⟩, seen, s.nav.mem.log⟩ ::
      s.told }

/-- The next step of an update. -/
def tick (site : Site) (o : Observation) (s : State G) : State G :=
  let log := s.nav.mem.log
  match s.update with
  | .idle =>
      match RobotState.rmfPose site.externals
          ⟨site.mapName, site.coordinateTransforms, o.updateHandle⟩ o.transform with
      | none => s
      | some rmfPose =>
          let job : Job := ⟨rmfPose, s.batterySoc⟩
          match s.nav.mem.session with
          | some i => { s with nav := updated s.nav, update := .lanes job log i }
          | none =>
              State.tell log (site.onMap rmfPose)
                { s with nav := updated s.nav, update := .position job }
  | .lanes job seen i =>
      let info := (Route.ofPlan (s.plans i)).navigationLanes
        (s.nav.mem.sessions i).currentTargetIndex
      State.tell seen (site.positionOf i job.rmfPose info)
        { s with nav := updated s.nav, update := .position job }
  | .position job =>
      { s with
        currentPosition := job.rmfPose
        nearbyLanes := site.nearbyLanes job.rmfPose o.now
        update := .drain job }
  | .drain job =>
      let nav := updated s.nav
      { s with nav, update := if nav.update = .recovery then .recovery job else .drain job }
  | .recovery job =>
      let s := s.tell log (.batterySoc job.batterySoc)
      if s.recovery.holding then s.check site job log o.now none
      else
        match s.nav.mem.session with
        | some i => { s with nav := updated s.nav, update := .done job log o.now i }
        | none => s.check site job log o.now none
  | .done job seen now i =>
      if (s.nav.mem.sessions i).done then
        s.check site job seen now (some (s.nav.mem.sessions i))
      else { s with update := .reason job seen now i }
  | .reason job seen now i =>
      -- `done` was false when it was read
      s.check site job seen now (some { s.nav.mem.sessions i with done := false })

end State

/-! ### The whole -/

inductive Action (G : Type) where
  /-- The executor starts a call. -/
  | call (c : RmfCall G)
  /-- The executor takes a step. -/
  | exec
  /-- `RobotState::update` takes a step. -/
  | update (o : Observation)
  /-- `battery_state_callback`, of a message that deserialises. -/
  | batteryState (percentage : ℝ)
  | recvStatus (entries : StatusList G)
  | status (k : ℕ)
  | recvFeedback (message : FeedbackMessage G)
  | feedback

variable [DecidableEq G]

/-- A step of the navigation stack alone. -/
def State.move (s : State G) (a : EgbFleet.Action G WaypointMsg) : Option (State G) :=
  (navStep s.nav a).map fun nav => { s with nav }

def step (site : Site) (s : State G) : Action G → Option (State G)
  | .call c =>
      if s.nav.exec.isIdle ∧ s.ready.isNone then
        match c.prepare site s.currentPosition s.nearbyLanes with
        | .error _ => some { s with raised := true }
        | .ok prepared => some { s with ready := some prepared }
      else none
  | .exec =>
      match s.ready with
      | none => s.move .exec
      | some prepared =>
          (s.move (.call prepared.call)).map fun s' =>
            { s' with
              ready := none
              plans := Function.update s.plans s.nav.mem.nextSession prepared.plan }
  | .update o => some (s.tick site o)
  | .batteryState percentage => some { s with batterySoc := percentage }
  | .recvStatus entries => s.move (.recvStatus entries)
  | .status k => s.move (.status k)
  | .recvFeedback message => s.move (.recvFeedback message)
  | .feedback => s.move .feedback

/-- One robot, whose `current_position_` is at first as given. -/
def robot (G : Type) [DecidableEq G] (site : Site) (currentPosition : Pose) :
    Lts (State G) (Action G) where
  init :=
    { nav := navStart
      ready := none
      plans := fun _ => []
      currentPosition
      nearbyLanes := []
      update := .idle
      batterySoc := 1
      recovery := {}
      told := []
      raised := false }
  step := step site

/-! ### A run -/

/-- One floor, whose two frames are the same, with the graph `fork`. -/
def forkSite : Site where
  externals := standard
  computePlanStarts := secondWaypoint
  mapName := "Floor0"
  coordinateTransforms := twoFloors
  graph := fork

/-- A plan along the first lane of `fork`. -/
def firstLane : List RoutePoint :=
  [{ position := ⟨(0, 0), 0⟩, approachLanes := [], graphIndex := some 1 },
    { position := ⟨(1, 0), 0⟩, approachLanes := [0], graphIndex := some 0 }]

/-- The robot is at the origin. -/
def atTheOrigin : Observation := ⟨true, some ⟨0, 0, 0, yawQuaternion 0⟩, 0⟩

/-- RMF gives the plan, and an update gets as far as storing the position. -/
def underWay : List (Action ℕ) :=
  [.call (.followNewPath firstLane true true ⟨7, true, some true⟩), .exec, .update atTheOrigin,
    .update atTheOrigin, .update atTheOrigin]

theorem exists_run_underWay :
    ∃ s, (robot ℕ forkSite ⟨(0, 0), 0⟩).Run (fun _ _ => True) (robot ℕ forkSite ⟨(0, 0), 0⟩).init
        underWay s ∧
      s.nearbyLanes ≠ [] ∧ ∃ r ∈ s.told, ∃ rmfPose, r.told = .onLanes 0 rmfPose [0] := by
  have hlanes : forkSite.graph.lanes ≠ [] := List.cons_ne_nil _ _
  refine ⟨_, .cons trivial rfl (.cons trivial rfl (.cons trivial rfl (.cons trivial rfl
    (.cons trivial rfl (.nil _))))), ?_, _, List.mem_cons_self, _, rfl⟩
  exact Site.nearbyLanes_ne_nil hlanes ⟨(0, 0), 0⟩ 0

end EgbFleet.Robot

end
