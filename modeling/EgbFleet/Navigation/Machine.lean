import EgbFleet.Navigation.Memory
import EgbFleet.Support.Runs

/-!
# Navigation — the machine

The threads of one robot's navigation stack, interleaved at their critical sections.

* The RMF executor (`Exec`) runs one call at a time: `follow_new_path`, `stop`, `dock`, an
  `UndockAction`'s `update_action`, and the context's `cancel_navigation`.
* `RobotState::update` (`UpdateThread`) runs on the timer.  `navigation_session.hpp` puts the timer
  on the same executor as RMF, `robot_state.hpp` on a thread of its own; here it is a thread of its
  own, which a run may or may not keep apart from the executor's calls.
* Any number of Zenoh status callbacks (`StatusThread`) and one feedback callback at a time
  (`FeedbackThread`) run beside them.

An action lets one thread take one atomic step: one mutex-protected section, one access to an
atomic, the sending of a goal or the arrival of its reply, or one callback invocation.  What a
thread computes on its own before its first such step is part of that step.  The control adapter of
the `PathHandle` is a `NavigationController`, as wherever the code constructs one.  A payload that
does not deserialise does what a message naming no live goal does, and is not distinguished from
one.

A `std::weak_ptr` locks as long as something holds the session strongly: `session_`, or a local
variable of a thread (`State.alive`).
-/

namespace EgbFleet

/-! ### Closures on the way -/

/-- What is left of a path's completion or failure closure once it has invalidated its session. -/
inductive Tail where
  | arrived (p : SessionId) (finished : Bool)
  | failed (p : SessionId)
  deriving DecidableEq

def Tail.path : Tail → SessionId
  | .arrived p _ => p
  | .failed p => p

/-- A closure being run outside the session's lock: not entered, or, for the closures of
`follow_new_path`, before `session_.reset()`, or after it. -/
inductive Firing where
  | enter (closure : Closure)
  | reset (tail : Tail)
  | report (tail : Tail)
  deriving DecidableEq

/-- The path a running closure belongs to. -/
def Firing.path? : Firing → Option SessionId
  | .enter c => c.path?
  | .reset t | .report t => some t.path

/-- The path whose `session_.reset()` a running closure has still to execute. -/
def Firing.resets? : Firing → Option SessionId
  | .enter c => c.path?
  | .reset t => some t.path
  | .report _ => none

variable {G W : Type}

/-- The next step of a closure. -/
def Firing.step (alive : SessionId → Bool) : Firing → Mem G W → Mem G W × Option Firing
  | .enter (.completion k), m =>
      let m := m.record (.invoked (.completion k))
      match k.kind with
      | .path p finished =>
          (if alive p then m.modify p .invalidate else m, some (.reset (.arrived p finished)))
      | .dock => (m.record (.docked (some k.call)), none)
      | .undock a => (m.setUndock a { m.undock a with navCompleted := true }, none)
  | .enter (.failure p), m =>
      let m := m.record (.invoked (.failure p))
      (if alive p then m.modify p .invalidate else m, some (.reset (.failed p)))
  | .reset t, m => (m.setSession none, some (.report t))
  | .report (.arrived p finished), m => (if finished then m.record (.finished p) else m, none)
  | .report (.failed p), m => ((m.setPendingFailure true).record (.flagged p), none)

/-! ### The RMF executor -/

/-- A path that `follow_new_path` is setting up: its session, its waypoints, whether RMF passed a
`next_arrival_estimator` and a `path_finished_callback`, and what the network will answer. -/
structure FollowJob (G W : Type) where
  path : SessionId
  waypoints : List W
  estimator : Bool
  finished : Bool
  net : Network G

/-- Who called `execute_path`. -/
inductive Caller where
  | follow (p : SessionId)
  | dock
  | undock (a : ActionId)
  deriving DecidableEq

/-- The session a caller's own frame holds while `execute_path` runs. -/
def Caller.holds : Caller → SessionId → Bool
  | .follow p, i => p == i
  | .dock, _ | .undock _, _ => false

/-- The arguments of `execute_path`. -/
structure PathRequest (G W : Type) where
  caller : Caller
  waypoints : List W
  callback : Option CompletionKind
  estimator : Option SessionId
  net : Network G

/-- `execute_path` under way: its arguments, the call, and the lanes it generated. -/
structure PathJob (G W : Type) where
  request : PathRequest G W
  call : CallId
  lanes : List Lane

def PathJob.completion (j : PathJob G W) : Option Completion :=
  j.request.callback.map (Completion.mk j.call)

/-- `follow_new_path` passes `wrapped_completion` and `wrapped_estimator`. -/
def FollowJob.request (f : FollowJob G W) : PathRequest G W where
  caller := .follow f.path
  waypoints := f.waypoints
  callback := some (.path f.path f.finished)
  estimator := if f.estimator then some f.path else none
  net := f.net

/-- Where the executor is: the step it takes next. -/
inductive Exec (G W : Type) where
  | idle
  -- `follow_new_path`, after it has stored the new session
  | invalidateOld (f : FollowJob G W) (old : SessionId)
  | armSession (f : FollowJob G W)
  | setSession (f : FollowJob G W)
  | executePath (f : FollowJob G W)
  -- `execute_path`, after it has locked session `i`
  | install (j : PathJob G W) (i : SessionId)
  | sendGoal (j : PathJob G W) (i : SessionId)
  -- inside `send_follow_path_goal`, which may wait 5 s for the reply
  | awaitReply (j : PathJob G W) (i : SessionId)
  | notAccepted (j : PathJob G W) (i : SessionId)
  | fire (j : PathJob G W) (i : Option SessionId) (f : Firing)
  -- `stop`, from its call of `cancel_navigation` on
  | stopCancel (i : SessionId)
  | stopRead
  | stopInvalidate (i : SessionId)
  | stopReset (held : Option SessionId)
  | stopClear (held : Option SessionId)
  -- the context's `cancel_navigation`
  | cancel (i : SessionId)

/-- The sessions the executor's local variables hold. -/
def Exec.holds : Exec G W → SessionId → Bool
  | .idle, _ | .stopRead, _ => false
  | .invalidateOld f old, i => f.path == i || old == i
  | .armSession f, i | .setSession f, i | .executePath f, i => f.path == i
  | .install j s, i | .sendGoal j s, i | .awaitReply j s, i | .notAccepted j s, i =>
      j.request.caller.holds i || s == i
  | .fire j s _, i => j.request.caller.holds i || s == some i
  | .stopReset s, i | .stopClear s, i => s == some i
  | .stopCancel s, i | .stopInvalidate s, i | .cancel s, i => s == i

def Exec.isIdle : Exec G W → Bool
  | .idle => true
  | _ => false

/-- What the caller does when its `execute_path` returns. -/
def Mem.returnFrom : Caller → Mem G W → Mem G W
  | .follow p, m => m.record (.followReturned p)
  | .dock, m => m
  | .undock a, m =>
      (m.setUndock a { m.undock a with state := .navigating }).record
        (.actionReturned a .inProgress)

section

variable (c : Caller) (m : Mem G W)

@[simp] theorem Mem.sessions_returnFrom : (m.returnFrom c).sessions = m.sessions := by
  cases c <;> rfl

@[simp] theorem Mem.session_returnFrom : (m.returnFrom c).session = m.session := by
  cases c <;> rfl

@[simp] theorem Mem.nextSession_returnFrom : (m.returnFrom c).nextSession = m.nextSession := by
  cases c <;> rfl

end

/-- `execute_path` numbers its call and draws its goal id. -/
@[simps! -fullyApplied]
def Mem.drawGoal (r : PathRequest G W) (m : Mem G W) : Mem G W :=
  m.newCall.record (.goal m.nextCall r.net.goalId (r.callback.map (.mk m.nextCall)))

/-- `execute_path` up to and including `session_wp_.lock()`, the lanes and the goal id. -/
def executePath (alive : SessionId → Bool) (r : PathRequest G W) (m : Mem G W) :
    Mem G W × Exec G W :=
  let c := m.nextCall
  let lanes := generateLanes r.waypoints.length
  match m.lock alive with
  | some i => (m.drawGoal r, .install ⟨r, c, lanes (m.sessions i).waypointSpeedLimits⟩ i)
  | none =>
      match r.callback with
      | some k => (m.drawGoal r, .fire ⟨r, c, lanes []⟩ none (.enter (.completion ⟨c, k⟩)))
      | none => ((m.drawGoal r).returnFrom r.caller, .idle)

/-- The executor's next step. -/
def Exec.step (alive : SessionId → Bool) : Exec G W → Mem G W → Mem G W × Exec G W
  | .idle, m => (m, .idle)
  | .invalidateOld f old, m => (m.modify old .invalidate, .armSession f)
  | .armSession f, m =>
      (((m.setPendingFailure false).record .unflagged).modify f.path (.arm f.path f.estimator),
        .setSession f)
  | .setSession f, m => (m.setSessionWp f.path, .executePath f)
  | .executePath f, m => EgbFleet.executePath alive f.request m
  | .install j i, m =>
      (m.modify i (.install j.request.net.goalId j.completion j.request.estimator), .sendGoal j i)
  | .sendGoal j i, m =>
      (m.record (.sent j.call j.request.net.goalId j.request.waypoints j.lanes), .awaitReply j i)
  | .awaitReply j i, m =>
      if sendWaypoints j.request.net j.request.waypoints then
        (m.returnFrom j.request.caller, .idle)
      else (m, .notAccepted j i)
  | .notAccepted j i, m =>
      match (m.sessions i).completionCallback with
      | some k => (m.modify i .markDone, .fire j (some i) (.enter (.completion k)))
      | none => ((m.modify i .markDone).returnFrom j.request.caller, .idle)
  | .fire j i f, m =>
      match f.step alive m with
      | (m, some f) => (m, .fire j i f)
      | (m, none) => (m.returnFrom j.request.caller, .idle)
  | .stopCancel i, m =>
      (if (m.sessions i).goalId.isSome then m.modify i .invalidate else m, .stopRead)
  | .stopRead, m =>
      (m, match m.session with
        | some i => .stopInvalidate i
        | none => .stopReset none)
  | .stopInvalidate i, m => (m.modify i .invalidate, .stopReset (some i))
  | .stopReset held, m => (m.setSession none, .stopClear held)
  | .stopClear _, m =>
      (((m.setPendingFailure false).record .unflagged).record .stopReturned, .idle)
  | .cancel i, m => (if (m.sessions i).goalId.isSome then m.modify i .invalidate else m, .idle)

/-- What an `update_action` call finds: whether the 60 s are over, the path its planning makes
(`none` when a prerequisite, the pose, a start waypoint or the path is missing), and whether
`RobotState` has a navigation interface. -/
structure UndockEnv (W : Type) where
  timedOut : Bool
  path : Option (List W)
  navigationInterface : Bool

/-- The calls the executor makes. -/
inductive Call (G W : Type) where
  | followNewPath (waypoints : List W) (waypointSpeedLimits : List ℚ) (estimator finished : Bool)
      (net : Network G)
  | stop
  /-- `dock`: the path its undock branch builds, or `none` where it sends nothing and only calls
  `docking_finished_callback` (no graph, no nearby lane, no such dock, no lane to undock by). -/
  | dock (path : Option (List W)) (finished : Bool) (net : Network G)
  | updateAction (a : ActionId) (env : UndockEnv W) (net : Network G)
  | cancelNavigation

/-- The goal id a call may draw. -/
def Call.goalId? : Call G W → Option G
  | .followNewPath _ _ _ _ net | .dock _ _ net | .updateAction _ _ net => some net.goalId
  | .stop | .cancelNavigation => none

/-- `update_action`, up to its first critical section. -/
def startUpdateAction (alive : SessionId → Bool) (a : ActionId) (env : UndockEnv W)
    (net : Network G) (m : Mem G W) : Mem G W × Exec G W :=
  let become (state : UndockState) (returned : RobotActionState) : Mem G W × Exec G W :=
    ((m.setUndock a { m.undock a with state }).record (.actionReturned a returned), .idle)
  match (m.undock a).state with
  | .planning =>
      if env.timedOut then become .failed .failed
      else
        match env.path with
        | none => become .failed .failed
        | some waypoints =>
            if env.navigationInterface then
              executePath alive
                { caller := .undock a, waypoints, callback := some (.undock a), estimator := none,
                  net }
                (m.record (.undockPlanned a m.nextCall waypoints))
            else become .navigating .inProgress
  | .navigating =>
      if (m.undock a).navCompleted then become .completed .completed
      else if env.timedOut then become .failed .failed
      else become .navigating .inProgress
  | .completed => become .completed .completed
  | .failed => become .failed .failed

/-- A call, up to and including its first critical section. -/
def Call.start (alive : SessionId → Bool) : Call G W → Mem G W → Mem G W × Exec G W
  | .followNewPath waypoints limits estimator finished net, m =>
      let p := m.nextSession
      let m' := (m.newSession limits).record (.followed p waypoints)
      if waypoints.isEmpty then
        ((if finished then m'.record (.finished p) else m').record (.followReturned p), .idle)
      else
        let f : FollowJob G W := ⟨p, waypoints, estimator, finished, net⟩
        (m'.setSession (some p),
          match m.session with
          | some old => .invalidateOld f old
          | none => .armSession f)
  | .stop, m =>
      (m.record .stopCalled,
        match m.lock alive with
        | some i => .stopCancel i
        | none => .stopRead)
  | .dock none finished _, m => (if finished then m.record (.docked none) else m, .idle)
  | .dock (some waypoints) finished net, m =>
      executePath alive
        { caller := .dock, waypoints, callback := if finished then some .dock else none,
          estimator := none, net }
        (m.record (.dockPlanned m.nextCall waypoints))
  | .updateAction a env net, m => startUpdateAction alive a env net m
  | .cancelNavigation, m =>
      (m.record .cancelCalled,
        match m.lock alive with
        | some i => .cancel i
        | none => .idle)

/-! ### The update -/

/-- Where `RobotState::update` is. -/
inductive UpdateThread where
  | idle
  -- `get_navigation_lanes` reads the session it holds
  | lanes (i : SessionId)
  | drain
  -- `drain_pending_feedback`, after `current_session`
  | drainCheck (i : SessionId)
  | drainTake (i : SessionId)
  | drainForward (i p : SessionId) (fb : PendingFeedback)
  | takeFailure
  | replan
  | recovery
  -- `check_deadlock_recovery` reads the session it holds
  | blocked (i : SessionId)
  deriving DecidableEq

def UpdateThread.holds : UpdateThread → SessionId → Bool
  | .idle, _ | .drain, _ | .takeFailure, _ | .replan, _ | .recovery, _ => false
  | .lanes s, i | .drainCheck s, i | .drainTake s, i | .drainForward s _ _, i | .blocked s, i =>
      s == i

/-- The next step of an update.  One that returns early, for want of a pose or of a transform, or
because the robot is holding, has read less. -/
def UpdateThread.step : UpdateThread → Mem G W → Mem G W × UpdateThread
  | .idle, m =>
      (m, match m.session with
        | some i => .lanes i
        | none => .drain)
  | .lanes _, m => (m, .drain)
  | .drain, m =>
      (m, match m.session with
        | some i => .drainCheck i
        | none => .takeFailure)
  | .drainCheck i, m => (m, if (m.sessions i).done then .takeFailure else .drainTake i)
  | .drainTake i, m =>
      match (m.sessions i).pendingFeedback, (m.sessions i).rmfArrivalEstimator with
      | some fb, some p => (m.modify i .clearFeedback, .drainForward i p fb)
      | _, _ => (m, .takeFailure)
  | .drainForward _ p fb, m => (m.record (.arrival p fb), .takeFailure)
  | .takeFailure, m =>
      if m.pendingFailure then ((m.setPendingFailure false).record .consumed, .replan)
      else (m, .recovery)
  | .replan, m => (m.record .replan, .recovery)
  | .recovery, m =>
      (m, match m.session with
        | some i => .blocked i
        | none => .idle)
  | .blocked _, m => (m, .idle)

/-! ### The Zenoh threads -/

/-- Where a status callback is. -/
inductive StatusThread (G : Type) where
  | lock (entries : StatusList G)
  | process (i : SessionId) (entries : StatusList G)
  | fire (i : SessionId) (f : Firing)
  | done
  deriving DecidableEq

def StatusThread.holds : StatusThread G → SessionId → Bool
  | .lock _, _ | .done, _ => false
  | .process s _, i | .fire s _, i => s == i

def StatusThread.isDone : StatusThread G → Bool
  | .done => true
  | _ => false

/-- The closure `status_callback` takes out of a session for an entry of this status. -/
def NavigationSession.closureFor (σ : NavigationSession G) : GoalStatus → Option Closure
  | .succeeded => σ.completionCallback.map .completion
  | .aborted | .canceled => σ.failureCallback.map .failure
  | .accepted | .executing | .other _ => none

/-- The next step of a status callback. -/
def StatusThread.step [DecidableEq G] (alive : SessionId → Bool) :
    StatusThread G → Mem G W → Mem G W × StatusThread G
  | .lock entries, m =>
      (m, match m.lock alive with
        | some i => .process i entries
        | none => .done)
  | .process i entries, m =>
      match (m.sessions i).goalId with
      | none => (m, .done)
      | some g =>
          match entries.find g with
          | none => (m, .done)
          | some st =>
              let m' := m.record (.status i g st)
              (if st.terminal then m'.modify i .invalidate else m',
                match (m.sessions i).closureFor st with
                | some c => .fire i (.enter c)
                | none => .done)
  | .fire i f, m =>
      match f.step alive m with
      | (m, some f) => (m, .fire i f)
      | (m, none) => (m, .done)
  | .done, m => (m, .done)

/-- Where the feedback callback is, with the receipt of its message. -/
inductive FeedbackThread (G : Type) where
  | idle
  | lock (n : Nat) (message : FeedbackMessage G)
  | check (i : SessionId) (n : Nat) (message : FeedbackMessage G)
  | snapshot (i : SessionId) (n : Nat) (message : FeedbackMessage G)
  | store (i : SessionId) (estimator : Option SessionId) (n : Nat) (message : FeedbackMessage G)
  -- inside `wrapped_estimator` of path `p`
  | estimate (i p : SessionId) (n : Nat) (message : FeedbackMessage G)
  | index (i p : SessionId) (n : Nat) (message : FeedbackMessage G)
  | buffer (i p : SessionId) (n : Nat) (message : FeedbackMessage G)

def FeedbackThread.holds : FeedbackThread G → SessionId → Bool
  | .idle, _ | .lock _ _, _ => false
  | .check s _ _, i | .snapshot s _ _, i | .store s _ _ _, i | .estimate s _ _ _, i => s == i
  | .index s p _ _, i | .buffer s p _ _, i => s == i || p == i

def FeedbackThread.isIdle : FeedbackThread G → Bool
  | .idle => true
  | _ => false

/-- The next step of the feedback callback. -/
def FeedbackThread.step [DecidableEq G] (alive : SessionId → Bool) :
    FeedbackThread G → Mem G W → Mem G W × FeedbackThread G
  | .idle, m => (m, .idle)
  | .lock n msg, m =>
      (m, match m.lock alive with
        | some i => .check i n msg
        | none => .idle)
  | .check i n msg, m => (m, if (m.sessions i).done then .idle else .snapshot i n msg)
  | .snapshot i n msg, m =>
      (m, if (m.sessions i).goalId = some msg.goalId then
          .store i (m.sessions i).arrivalEstimator n msg
        else .idle)
  | .store i cb n msg, m =>
      (m.modify i (.setFailureReason (.ofByte msg.failureReason)),
        match cb with
        | some p => .estimate i p n msg
        | none => .idle)
  | .estimate i p n msg, m =>
      (m, if alive p && !(m.sessions p).done then .index i p n msg else .idle)
  | .index i p n msg, m =>
      (m.modify p (.setTargetIndex msg.targetWaypointIndex), .buffer i p n msg)
  | .buffer _ p n msg, m =>
      (m.modify p (.buffer ⟨msg.targetWaypointIndex, msg.etaSeconds, n⟩), .idle)

/-! ### The whole -/

structure State (G W : Type) where
  mem : Mem G W
  exec : Exec G W
  update : UpdateThread
  status : List (StatusThread G)
  feedback : FeedbackThread G

/-- Session `i` has a strong owner. -/
def State.alive (s : State G W) (i : SessionId) : Bool :=
  s.mem.session == some i || s.exec.holds i || s.update.holds i || s.status.any (·.holds i) ||
    s.feedback.holds i

inductive Action (G W : Type) where
  /-- The executor starts a call. -/
  | call (c : Call G W)
  /-- The executor takes a step. -/
  | exec
  /-- `RobotState::update` takes a step, its first or its next. -/
  | update
  /-- Zenoh delivers a status message, on a new thread. -/
  | recvStatus (entries : StatusList G)
  /-- Status callback number `k` takes a step. -/
  | status (k : Nat)
  /-- Zenoh delivers a feedback message. -/
  | recvFeedback (message : FeedbackMessage G)
  /-- The feedback callback takes a step. -/
  | feedback

/-- No `execute_path` call has drawn `g`. -/
def Mem.Fresh (m : Mem G W) (g : G) : Prop := ∀ e ∈ m.log, e.draws? ≠ some g

instance [DecidableEq G] (m : Mem G W) (g : G) : Decidable (m.Fresh g) :=
  inferInstanceAs (Decidable (∀ e ∈ m.log, e.draws? ≠ some g))

def navStart : State G W := ⟨Mem.start, .idle, .idle, [], .idle⟩

/-- One action.  A call starts when the executor is idle, with a goal id not drawn before. -/
def navStep [DecidableEq G] (s : State G W) : Action G W → Option (State G W)
  | .call c =>
      if s.exec.isIdle ∧ ∀ g ∈ c.goalId?, s.mem.Fresh g then
        let r := c.start s.alive s.mem
        some { s with mem := r.1, exec := r.2 }
      else none
  | .exec =>
      if s.exec.isIdle then none
      else
        let r := s.exec.step s.alive s.mem
        some { s with mem := r.1, exec := r.2 }
  | .update =>
      let r := s.update.step s.mem
      some { s with mem := r.1, update := r.2 }
  | .recvStatus entries => some { s with status := s.status ++ [.lock entries] }
  | .status k =>
      match s.status[k]? with
      | none => none
      | some t =>
          if t.isDone then none
          else
            let r := t.step s.alive s.mem
            some { s with mem := r.1, status := s.status.set k r.2 }
  | .recvFeedback msg =>
      if s.feedback.isIdle then
        let n := s.mem.nextReceipt
        some { s with mem := s.mem.newReceipt.record (.feedback n msg), feedback := .lock n msg }
      else none
  | .feedback =>
      if s.feedback.isIdle then none
      else
        let r := s.feedback.step s.alive s.mem
        some { s with mem := r.1, feedback := r.2 }

/-- The navigation stack of one robot. -/
def navigation (G W : Type) [DecidableEq G] : Lts (State G W) (Action G W) where
  init := navStart
  step := navStep

/-! ### A run -/

/-- A path of two waypoints, whose goal 7 the robot accepts. -/
def firstPath : Call ℕ ℕ := .followNewPath [1, 2] [0, 0] true true ⟨7, true, some true⟩

/-- The path of one waypoint that replaces it, with goal 8. -/
def secondPath : Call ℕ ℕ := .followNewPath [3] [0] true true ⟨8, true, some true⟩

/-- `follow_new_path` runs to its return. -/
def following : List (Action ℕ ℕ) :=
  [.call firstPath, .exec, .exec, .exec, .exec, .exec, .exec]

/-- Then the robot reports success. -/
def arrival : List (Action ℕ ℕ) :=
  following ++ [.recvStatus [(7, .succeeded)], .status 0, .status 0, .status 0, .status 0,
    .status 0]

example : ((navigation ℕ ℕ).runs (fun _ _ => True) navStart arrival).map
    (fun s => (s.mem.log.head?, s.mem.session)) = some (some (.finished 0), none) := by decide

end EgbFleet
