import EgbFleet.Navigation.Session
import Mathlib.Tactic.Simps.Basic

/-!
# Navigation — the shared memory and its log

`Mem G W` is what the threads of one robot's navigation stack share: the heap of sessions,
`PathHandle::session_`, `NavigationController::session_wp_`, `pending_failure_`, the
`UndockAction`s, and the log of what has happened, newest first.  `G` is the type of goal ids,
`W` the type of waypoint messages.

The log is not in the code; the properties of runs are stated of it.
-/

namespace EgbFleet

/-- What has happened in a run. -/
inductive Event (G W : Type) where
  /-- `follow_new_path(p)` was called with these waypoints. -/
  | followed (p : SessionId) (waypoints : List W)
  | followReturned (p : SessionId)
  | stopCalled
  | stopReturned
  /-- The context's `cancel_navigation` was called. -/
  | cancelCalled
  /-- `dock` took its undock branch and passed this path to `execute_path` call `c`. -/
  | dockPlanned (c : CallId) (waypoints : List W)
  /-- `handle_planning` passed this path to `execute_navigation`, in call `c`. -/
  | undockPlanned (a : ActionId) (c : CallId) (waypoints : List W)
  /-- `execute_path` call `c`, given this completion callback, drew goal id `g`. -/
  | goal (c : CallId) (g : G) (completion : Option Completion)
  /-- Call `c` handed its goal to `send_follow_path_goal`. -/
  | sent (c : CallId) (g : G) (waypoints : List W) (lanes : List Lane)
  /-- `status_callback` found this entry for the goal id of session `i`. -/
  | status (i : SessionId) (g : G) (status : GoalStatus)
  /-- A closure copied out of a session, or a callback passed to `execute_path`, was called. -/
  | invoked (closure : Closure)
  /-- RMF's `path_finished_callback` for path `p` was called. -/
  | finished (p : SessionId)
  /-- RMF's `docking_finished_callback` was called: for the undock branch of call `c`, or by a
  branch that sends nothing. -/
  | docked (c : Option CallId)
  /-- `update_action` of action `a` returned. -/
  | actionReturned (a : ActionId) (state : RobotActionState)
  /-- `pending_failure_.store(true)`, by the failure closure of path `p`. -/
  | flagged (p : SessionId)
  /-- `pending_failure_.store(false)`. -/
  | unflagged
  /-- `RobotState::update` took the failure: its `pending_failure_.exchange(false)` was true. -/
  | consumed
  /-- `RobotState::update` requested a replan. -/
  | replan
  /-- Zenoh delivered feedback message number `n`. -/
  | feedback (n : Nat) (message : FeedbackMessage G)
  /-- `drain_pending_feedback` called the RMF arrival estimator of path `p`. -/
  | arrival (p : SessionId) (feedback : PendingFeedback)
  deriving DecidableEq

/-- The goal id an event draws. -/
def Event.draws? {G W : Type} : Event G W → Option G
  | .goal _ g _ => some g
  | _ => none

/-- The shared memory. -/
structure Mem (G W : Type) where
  sessions : SessionId → NavigationSession G
  /-- `PathHandle::session_`. -/
  session : Option SessionId
  /-- `NavigationController::session_wp_`, a weak pointer. -/
  sessionWp : Option SessionId
  pendingFailure : Bool
  undock : ActionId → UndockAction
  nextSession : SessionId
  nextCall : CallId
  nextReceipt : Nat
  log : List (Event G W)

namespace Mem

variable {G W : Type}

/-- Nothing has run yet. -/
def start : Mem G W where
  sessions := fun _ => {}
  session := none
  sessionWp := none
  pendingFailure := false
  undock := fun _ => {}
  nextSession := 0
  nextCall := 0
  nextReceipt := 0
  log := []

@[simps -fullyApplied]
def record (e : Event G W) (m : Mem G W) : Mem G W := { m with log := e :: m.log }

/-- A critical section of session `i`. -/
@[simps -fullyApplied session sessionWp pendingFailure undock nextSession nextCall nextReceipt log]
def modify (i : SessionId) (f : NavigationSession G → NavigationSession G) (m : Mem G W) :
    Mem G W :=
  { m with sessions := Function.update m.sessions i (f (m.sessions i)) }

@[simps -fullyApplied]
def setSession (i : Option SessionId) (m : Mem G W) : Mem G W := { m with session := i }

@[simps -fullyApplied]
def setSessionWp (i : SessionId) (m : Mem G W) : Mem G W := { m with sessionWp := some i }

@[simps -fullyApplied]
def setPendingFailure (b : Bool) (m : Mem G W) : Mem G W := { m with pendingFailure := b }

@[simps -fullyApplied]
def setUndock (a : ActionId) (u : UndockAction) (m : Mem G W) : Mem G W :=
  { m with undock := Function.update m.undock a u }

/-- `std::make_shared<NavigationSession>()`, with the limits of the plan's legs. -/
@[simps -fullyApplied]
def newSession (waypointSpeedLimits : List ℚ) (m : Mem G W) : Mem G W :=
  { m with
    sessions := Function.update m.sessions m.nextSession { waypointSpeedLimits }
    nextSession := m.nextSession + 1 }

@[simps -fullyApplied]
def newCall (m : Mem G W) : Mem G W := { m with nextCall := m.nextCall + 1 }

@[simps -fullyApplied]
def newReceipt (m : Mem G W) : Mem G W := { m with nextReceipt := m.nextReceipt + 1 }

/-- `session_wp_.lock()`: `alive` says which sessions a strong pointer still holds. -/
def lock (alive : SessionId → Bool) (m : Mem G W) : Option SessionId := m.sessionWp.filter alive

theorem lock_eq_some {alive : SessionId → Bool} {m : Mem G W} {i : SessionId} :
    m.lock alive = some i ↔ m.sessionWp = some i ∧ alive i = true :=
  Option.filter_eq_some_iff

section

variable (i : SessionId) (f : NavigationSession G → NavigationSession G) (m : Mem G W)

@[simp] theorem sessions_modify_self : (m.modify i f).sessions i = f (m.sessions i) := by
  simp [modify]

theorem sessions_modify_of_ne {j : SessionId} (h : j ≠ i) :
    (m.modify i f).sessions j = m.sessions j := by
  simp [modify, h]

/-- Session `j`, after a critical section of session `i`. -/
@[elab_as_elim]
theorem sessions_modify_rec {motive : SessionId → NavigationSession G → Prop} (j : SessionId)
    (self : motive i (f (m.sessions i))) (other : j ≠ i → motive j (m.sessions j)) :
    motive j ((m.modify i f).sessions j) := by
  by_cases e : j = i
  · subst e; rw [sessions_modify_self]; exact self
  · rw [sessions_modify_of_ne _ _ _ e]; exact other e

/-- Session `j`, after `make_shared`. -/
@[elab_as_elim]
theorem sessions_newSession_rec {motive : SessionId → NavigationSession G → Prop}
    (limits : List ℚ) (j : SessionId)
    (new : motive m.nextSession { waypointSpeedLimits := limits })
    (old : j ≠ m.nextSession → motive j (m.sessions j)) :
    motive j ((m.newSession limits).sessions j) := by
  by_cases e : j = m.nextSession
  · subst e; rw [newSession_sessions, Function.update_self]; exact new
  · rw [newSession_sessions, Function.update_of_ne e]; exact old e

end

end Mem

end EgbFleet
