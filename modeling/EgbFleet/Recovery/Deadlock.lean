import EgbFleet.Navigation.Session
import EgbFleet.Support.Runs

/-!
# Recovery — `check_deadlock_recovery`

At the end of every update, `RobotState::check_deadlock_recovery` looks whether the current session
is stuck on an obstacle.  Once it has been for 8 s the robot's plan is interrupted and the robot
held for 10 s; then the plan is resumed, and for 15 s no new wait begins.

The clock is read once a call.  An `rclcpp::Time` and an `rclcpp::Duration` are an exact number of
nanoseconds; such a number divided by 10⁹ is below `8.0` as a `double` just when it is.
-/

namespace EgbFleet

/-- `rclcpp::Duration::from_seconds` and `std::chrono::seconds`, in nanoseconds. -/
def seconds (n : Int) : Int := n * 1000000000

/-- The session is neither over nor free of a reported failure. -/
def NavigationSession.blocked {G : Type} (σ : NavigationSession G) : Bool :=
  !σ.done && σ.failureReason != .none

namespace Recovery

/-- What `interrupt` is passed: its labels, and the holding its callback declares. -/
structure Interruption (Q : Type) where
  labels : List String
  mapName : String
  pose : Q
  holding : Int
  deriving DecidableEq

/-- What a call does to RMF. -/
inductive Command (Q : Type) where
  | interrupt (i : Interruption Q)
  | resume (i : Interruption Q) (labels : List String)
  deriving DecidableEq

/-- The fields of `RobotState` that `check_deadlock_recovery` reads and writes. -/
structure RobotState (Q : Type) where
  deadlockInterruption : Option (Interruption Q) := none
  blockedSince : Option Int := none
  holdUntil : Option Int := none
  cooldownUntil : Option Int := none
  holding : Bool := false
  deriving DecidableEq

variable {G Q : Type}

/-- The interruption of a robot held where it is. -/
def goalOnObstacle (mapName : String) (rmfPose : Q) : Interruption Q where
  labels := ["goal_on_obstacle"]
  mapName := mapName
  pose := rmfPose
  holding := seconds 10

/-- `RobotState::check_deadlock_recovery`, with the clock it reads and the session
`current_session` returns, if there is a `PathHandle` and it has one. -/
def RobotState.checkDeadlockRecovery (now : Int) (session : Option (NavigationSession G))
    (mapName : String) (rmfPose : Q) (r : RobotState Q) : RobotState Q × Option (Command Q) :=
  if r.holding then
    if r.holdUntil.any (· ≤ now) then
      ({ r with
          deadlockInterruption := none
          holding := false
          holdUntil := none
          blockedSince := none
          cooldownUntil := some (now + seconds 15) },
        r.deadlockInterruption.map (.resume · ["goal_on_obstacle_cleared"]))
    else (r, none)
  else if !session.any NavigationSession.blocked then ({ r with blockedSince := none }, none)
  else if r.cooldownUntil.any (now < ·) then (r, none)
  else
    match r.blockedSince with
    | none => ({ r with blockedSince := some now }, none)
    | some since =>
        if now - since < seconds 8 then (r, none)
        else
          let i := goalOnObstacle mapName rmfPose
          ({ r with
              deadlockInterruption := some i
              holding := true
              holdUntil := some (now + seconds 10) },
            some (.interrupt i))

/-! ### What a call does -/

/-- `checkDeadlockRecovery` at `now`, by the branch it takes. -/
inductive Checks (now : Int) (blocked : Bool) (i : Interruption Q) (r : RobotState Q) :
    RobotState Q → Option (Command Q) → Prop where
  | hold (holding : r.holding = true) : Checks now blocked i r r none
  | release {u : Int} (holding : r.holding = true) (ends : r.holdUntil = some u)
      (due : u ≤ now) :
      Checks now blocked i r
        { r with
          deadlockInterruption := none
          holding := false
          holdUntil := none
          blockedSince := none
          cooldownUntil := some (now + seconds 15) }
        (r.deadlockInterruption.map (.resume · ["goal_on_obstacle_cleared"]))
  | clear (free : r.holding = false) (clear : blocked = false) :
      Checks now blocked i r { r with blockedSince := none } none
  | cool {u : Int} (free : r.holding = false) (blocks : blocked = true)
      (ends : r.cooldownUntil = some u) (early : now < u) : Checks now blocked i r r none
  | mark (free : r.holding = false) (blocks : blocked = true)
      (cooled : ∀ u, r.cooldownUntil = some u → u ≤ now) (unmarked : r.blockedSince = none) :
      Checks now blocked i r { r with blockedSince := some now } none
  | wait (free : r.holding = false) (blocks : blocked = true) : Checks now blocked i r r none
  | interrupt {since : Int} (free : r.holding = false) (blocks : blocked = true)
      (marked : r.blockedSince = some since) (late : since + seconds 8 ≤ now) :
      Checks now blocked i r
        { r with
          deadlockInterruption := some i
          holding := true
          holdUntil := some (now + seconds 10) }
        (some (.interrupt i))

theorem RobotState.checks (now : Int) (session : Option (NavigationSession G))
    (mapName : String) (rmfPose : Q) (r : RobotState Q) :
    Checks now (session.any NavigationSession.blocked) (goalOnObstacle mapName rmfPose) r
      (r.checkDeadlockRecovery now session mapName rmfPose).1
      (r.checkDeadlockRecovery now session mapName rmfPose).2 := by
  obtain ⟨interruption, blockedSince, holdUntil, cooldownUntil, holding⟩ := r
  cases holding with
  | true =>
      by_cases due : holdUntil.any (· ≤ now) = true
      · obtain ⟨u, ends, hu⟩ := (Option.any_eq_true _ _).mp due
        simpa [checkDeadlockRecovery, due] using .release rfl ends (by simpa using hu)
      · simpa [checkDeadlockRecovery, due] using .hold rfl
  | false =>
      by_cases blocks : session.any NavigationSession.blocked = true
      · by_cases early : cooldownUntil.any (now < ·) = true
        · obtain ⟨u, ends, hu⟩ := (Option.any_eq_true _ _).mp early
          simpa [checkDeadlockRecovery, blocks, early] using .cool rfl rfl ends (by simpa using hu)
        have cooled : ∀ u, cooldownUntil = some u → u ≤ now := by
          rintro u rfl
          simpa using early
        cases blockedSince with
        | none =>
            simpa [checkDeadlockRecovery, blocks, early] using .mark rfl rfl cooled rfl
        | some since =>
            by_cases soon : now - since < seconds 8
            · simpa [checkDeadlockRecovery, blocks, early, soon] using .wait rfl rfl
            · have late : since + seconds 8 ≤ now := by omega
              simpa [checkDeadlockRecovery, blocks, early, soon] using .interrupt rfl rfl rfl late
      · simpa [checkDeadlockRecovery, blocks] using .clear rfl rfl

/-! ### A sequence of calls -/

/-- A call: the clock it read, whether it would find the session blocked, and what it did. -/
structure Call (Q : Type) where
  now : Int
  blocked : Bool
  command : Option (Command Q)
  deriving DecidableEq

def Call.interrupts (c : Call Q) : Bool := c.command matches some (.interrupt _)

def Call.resumes (c : Call Q) : Bool := c.command matches some (.resume _ _)

/-- The robot, and its calls so far, newest first. -/
structure State (Q : Type) where
  robot : RobotState Q
  log : List (Call Q)

/-- What a call finds: the clock, the current session, and its arguments. -/
structure Tick (G Q : Type) where
  now : Int
  session : Option (NavigationSession G)
  mapName : String
  rmfPose : Q

def State.tick (t : Tick G Q) (s : State Q) : State Q :=
  let r := s.robot.checkDeadlockRecovery t.now t.session t.mapName t.rmfPose
  ⟨r.1, ⟨t.now, t.session.any NavigationSession.blocked, r.2⟩ :: s.log⟩

/-- The calls of `check_deadlock_recovery` of one robot. -/
def recovery (G Q : Type) : Lts (State Q) (Tick G Q) where
  init := ⟨{}, []⟩
  step s t := some (s.tick t)

end Recovery

end EgbFleet
