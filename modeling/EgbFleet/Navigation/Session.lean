import Mathlib.Data.Rat.Defs
import Mathlib.Logic.Function.Basic

/-!
# Navigation — the session and its messages

The data `PathHandle`, `NavigationController` and the Zenoh callbacks share.

* A `NavigationSession G` is one plan's execution, `G` the type of goal ids.  Its callbacks are
  closures; a closure is recorded by what it captured, and a weak pointer it captured by the
  name of the session it points to.
* Every `follow_new_path` call has a `SessionId`: the name of the session it makes, and of the
  path itself.  Every `execute_path` call has a `CallId`, every `UndockAction` an `ActionId`.
  The ids are names for the objects; the code holds pointers.
-/

namespace EgbFleet

abbrev SessionId := Nat
abbrev CallId := Nat
abbrev ActionId := Nat

/-- `NavFailure`, as `static_cast` reads it off a byte: any byte, named or not. -/
inductive NavFailure where
  | none
  | localPlanning
  | goalOnObstacle
  | unnamed (byte : Nat)
  deriving DecidableEq

def NavFailure.ofByte : Nat → NavFailure
  | 0 => .none
  | 1 => .localPlanning
  | 2 => .goalOnObstacle
  | n => .unnamed n

/-- `action_msgs/GoalStatus`, with the codes `status_callback` names. -/
inductive GoalStatus where
  | accepted
  | executing
  | succeeded
  | canceled
  | aborted
  | other (code : Int)
  deriving DecidableEq

/-- `STATUS_SUCCEEDED`, `STATUS_ABORTED` and `STATUS_CANCELED` end a goal. -/
def GoalStatus.terminal : GoalStatus → Bool
  | .succeeded | .aborted | .canceled => true
  | .accepted | .executing | .other _ => false

/-- `STATUS_ABORTED` and `STATUS_CANCELED`. -/
def GoalStatus.failed : GoalStatus → Bool
  | .aborted | .canceled => true
  | .accepted | .executing | .succeeded | .other _ => false

/-- A `GoalStatusArray`: goal ids with their status. -/
abbrev StatusList (G : Type) := List (G × GoalStatus)

/-- The first entry for `g`, where the loop of `status_callback` breaks. -/
def StatusList.find {G : Type} [DecidableEq G] (entries : StatusList G) (g : G) :
    Option GoalStatus :=
  (List.find? (fun e => e.1 = g) entries).map Prod.snd

/-- `FollowWaypoints` feedback. -/
structure FeedbackMessage (G : Type) where
  goalId : G
  targetWaypointIndex : Nat
  etaSeconds : ℚ
  failureReason : Nat
  deriving DecidableEq

/-- `NavigationSession::PendingFeedback`.  `receipt` numbers the feedback message it was copied
from; the code does not store it. -/
structure PendingFeedback where
  waypointIndex : Nat
  etaSeconds : ℚ
  receipt : Nat
  deriving DecidableEq

/-! ### Callbacks -/

/-- The completion callbacks the callers of `execute_path` pass. -/
inductive CompletionKind where
  /-- `wrapped_completion` of `follow_new_path`: the weak pointer to its session, and whether the
  `path_finished_callback` it captured is set. -/
  | path (p : SessionId) (finished : Bool)
  /-- `docking_finished_callback`, handed on by `dock`. -/
  | dock
  /-- `UndockAction`'s `nav_completed_ = true`. -/
  | undock (a : ActionId)
  deriving DecidableEq

/-- A non-empty completion callback, with the `execute_path` call it was passed to. -/
structure Completion where
  call : CallId
  kind : CompletionKind
  deriving DecidableEq

/-- What `status_callback` or `execute_path` copies out of a session to run outside its lock. -/
inductive Closure where
  | completion (k : Completion)
  /-- `failure_callback`, with its weak pointer to session `p`. -/
  | failure (p : SessionId)
  deriving DecidableEq

/-- The path whose `session_.reset()` a closure holds. -/
def Closure.path? : Closure → Option SessionId
  | .completion ⟨_, .path p _⟩ => some p
  | .completion ⟨_, .dock⟩ | .completion ⟨_, .undock _⟩ => none
  | .failure p => some p

/-! ### The session -/

/-- `NavigationSession`.  An empty `std::function` is `none`. -/
structure NavigationSession (G : Type) where
  goalId : Option G := none
  done : Bool := false
  failureReason : NavFailure := .none
  completionCallback : Option Completion := none
  failureCallback : Option SessionId := none
  arrivalEstimator : Option SessionId := none
  rmfArrivalEstimator : Option SessionId := none
  pendingFeedback : Option PendingFeedback := none
  waypointSpeedLimits : List ℚ := []
  currentTargetIndex : Nat := 0

namespace NavigationSession

variable {G : Type}

def invalidate (σ : NavigationSession G) : NavigationSession G :=
  { σ with
    done := true
    failureReason := .none
    goalId := none
    completionCallback := none
    failureCallback := none
    arrivalEstimator := none
    rmfArrivalEstimator := none
    pendingFeedback := none }

/-- `follow_new_path` arms its own session `p`, before the controller can reach it. -/
def arm (p : SessionId) (estimator : Bool) (σ : NavigationSession G) : NavigationSession G :=
  { σ with
    rmfArrivalEstimator := if estimator then some p else none
    failureCallback := some p }

/-- The critical section of `execute_path` that installs a goal. -/
def install (g : G) (completion : Option Completion) (estimator : Option SessionId)
    (σ : NavigationSession G) : NavigationSession G :=
  { σ with
    completionCallback := completion
    arrivalEstimator := estimator
    goalId := some g
    done := false }

def markDone (σ : NavigationSession G) : NavigationSession G := { σ with done := true }

def setFailureReason (r : NavFailure) (σ : NavigationSession G) : NavigationSession G :=
  { σ with failureReason := r }

def setTargetIndex (n : Nat) (σ : NavigationSession G) : NavigationSession G :=
  { σ with currentTargetIndex := n }

def buffer (fb : PendingFeedback) (σ : NavigationSession G) : NavigationSession G :=
  { σ with pendingFeedback := some fb }

def clearFeedback (σ : NavigationSession G) : NavigationSession G :=
  { σ with pendingFeedback := none }

end NavigationSession

/-! ### Goals -/

/-- `egb_fleet_msgs/Lane`. -/
structure Lane where
  id : String
  entry : String
  exit : String
  speedLimit : ℚ
  deriving DecidableEq

/-- `NavigationController::generate_lanes`. -/
def generateLanes (waypointCount : Nat) (speedLimits : List ℚ) : List Lane :=
  (List.range (waypointCount - 1)).map fun i =>
    { id := "lane_" ++ toString i
      entry := "wp_" ++ toString i
      exit := "wp_" ++ toString (i + 1)
      speedLimit := speedLimits.getD (i + 1) 0 }

/-- What the network answers to one `execute_path`: the id `generate_goal_id` draws, whether a
Zenoh session is open, and the reply to the query: `none` for a timeout, an error or a payload
that does not deserialise, else its `accepted` field. -/
structure Network (G : Type) where
  goalId : G
  zenohSession : Bool
  reply : Option Bool

/-- `send_waypoints`, and `send_follow_path_goal` over it. -/
def sendWaypoints {G W : Type} (net : Network G) (waypoints : List W) : Bool :=
  net.zenohSession && !waypoints.isEmpty && net.reply == some true

/-! ### The undock action -/

/-- `UndockAction::State`. -/
inductive UndockState where
  | planning
  | navigating
  | completed
  | failed
  deriving DecidableEq

/-- `RobotActionState`. -/
inductive RobotActionState where
  | inProgress
  | canceling
  | canceled
  | completed
  | failed
  deriving DecidableEq

/-- The fields of an `UndockAction` that `update_action` changes. -/
structure UndockAction where
  state : UndockState := .planning
  navCompleted : Bool := false
  deriving DecidableEq

end EgbFleet
