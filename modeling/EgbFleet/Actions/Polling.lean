import EgbFleet.Navigation.Session
import EgbFleet.Support.Runs

/-!
# Actions — the polling machine

`RobotState::execute_action` runs on the RMF worker thread and stores the pair
(`current_action_`, `current_action_execution_`); `RobotState::update_current_action` runs on the
timer thread, and polls and concludes it.  They are interleaved at the critical sections of
`action_mutex_` and at the calls of `update_action`, which run outside it.

An `ActivityId` names one call of `execute_action`: the `ActionExecution` it was given, and the
action `perform_action` creates for it.
-/

namespace EgbFleet

abbrev ActivityId := Nat

/-- How `update_current_action` concludes an `ActionExecution`. -/
inductive Conclusion where
  | finished
  | error (message : String)
  deriving DecidableEq

/-- The switch of `update_current_action`; `none` where it goes on monitoring. -/
def RobotActionState.conclusion? : RobotActionState → Option Conclusion
  | .inProgress | .canceling => none
  | .completed | .canceled => some .finished
  | .failed => some (.error "Action failed")

namespace Actions

/-- What has happened in a run. -/
inductive Event where
  /-- `execute_action` stored the pair of `e`. -/
  | stored (e : ActivityId)
  /-- `update_action` of the action of `e` returned. -/
  | returned (e : ActivityId) (state : RobotActionState)
  /-- `finished()` or `error()` was called on the `ActionExecution` of `e`. -/
  | concluded (e : ActivityId) (conclusion : Conclusion)
  deriving DecidableEq

/-- Where the timer thread is in `update_current_action`, with its local `action`. -/
inductive Timer where
  | idle
  | calling (action : ActivityId)
  | concluding (action : ActivityId) (conclusion : Conclusion)
  deriving DecidableEq

structure State where
  currentAction : Option ActivityId
  currentActionExecution : Option ActivityId
  timer : Timer
  nextActivity : ActivityId
  log : List Event
  deriving DecidableEq

inductive Step where
  /-- RMF calls `execute_action`; `created` says whether `perform_action` returned an action, and
  not that there is no plugin for the category, that it could not be loaded, does not support the
  category, created nothing or raised. -/
  | executeAction (created : Bool)
  /-- The timer calls `update_current_action`, which copies `current_action_`. -/
  | updateCurrentAction
  /-- `update_action` returns, or raises (`none`); the timer's own handler catches that. -/
  | updateAction (result : Option RobotActionState)
  /-- The critical section of the branch taken for a terminal state. -/
  | conclude
  deriving DecidableEq

/-- The critical section of `execute_action`. -/
def State.store (e : ActivityId) (s : State) : State :=
  { s with currentAction := some e, currentActionExecution := some e, log := .stored e :: s.log }

/-- The critical section of `COMPLETED`, `CANCELED` and `FAILED`. -/
def State.conclude (c : Conclusion) (s : State) : State :=
  { s with
    currentAction := none
    currentActionExecution := none
    log := (s.currentActionExecution.map fun e => .concluded e c).toList ++ s.log }

/-- Where `update_current_action` goes on when `update_action` has returned. -/
def Timer.after (action : ActivityId) (state : RobotActionState) : Timer :=
  match state.conclusion? with
  | some c => .concluding action c
  | none => .idle

def step (s : State) : Step → Option State
  | .executeAction created =>
      let s' := { s with nextActivity := s.nextActivity + 1 }
      some (if created then s'.store s.nextActivity else s')
  | .updateCurrentAction =>
      match s.timer with
      | .idle =>
          match s.currentAction with
          | some a => some { s with timer := .calling a }
          | none => some s
      | .calling _ | .concluding _ _ => none
  | .updateAction result =>
      match s.timer with
      | .calling a =>
          match result with
          | some st => some { s with timer := .after a st, log := .returned a st :: s.log }
          | none => some { s with timer := .idle }
      | .idle | .concluding _ _ => none
  | .conclude =>
      match s.timer with
      | .concluding _ c => some { s.conclude c with timer := .idle }
      | .idle | .calling _ => none

/-- The action polling of one robot. -/
def polling : Lts State Step where
  init := ⟨none, none, .idle, 0, []⟩
  step := step

/-! ### Steps as a relation -/

/-- `step`, for the steps that are enabled. -/
inductive Moves (s : State) : Step → State → Prop where
  | dropped : Moves s (.executeAction false) { s with nextActivity := s.nextActivity + 1 }
  | stored : Moves s (.executeAction true)
      ({ s with nextActivity := s.nextActivity + 1 }.store s.nextActivity)
  | unset (idle : s.timer = .idle) (unset : s.currentAction = none) :
      Moves s .updateCurrentAction s
  | snapshot {a : ActivityId} (idle : s.timer = .idle) (stored : s.currentAction = some a) :
      Moves s .updateCurrentAction { s with timer := .calling a }
  | monitored {a : ActivityId} {st : RobotActionState} (calling : s.timer = .calling a)
      (hst : st.conclusion? = none) :
      Moves s (.updateAction (some st)) { s with timer := .idle, log := .returned a st :: s.log }
  | ended {a : ActivityId} {st : RobotActionState} {c : Conclusion} (calling : s.timer = .calling a)
      (hst : st.conclusion? = some c) :
      Moves s (.updateAction (some st))
        { s with timer := .concluding a c, log := .returned a st :: s.log }
  | raised {a : ActivityId} (calling : s.timer = .calling a) :
      Moves s (.updateAction none) { s with timer := .idle }
  | concluded {a : ActivityId} {c : Conclusion} (concluding : s.timer = .concluding a c) :
      Moves s .conclude { s.conclude c with timer := .idle }

theorem step_moves {s s' : State} {a : Step} (h : step s a = some s') : Moves s a s' := by
  obtain ⟨currentAction, currentActionExecution, timer, nextActivity, log⟩ := s
  cases a with
  | executeAction created =>
      cases created with
      | false => cases h; exact .dropped
      | true => cases h; exact .stored
  | updateCurrentAction =>
      cases timer with
      | idle =>
          cases currentAction with
          | none => cases h; exact .unset rfl rfl
          | some a => cases h; exact .snapshot rfl rfl
      | calling _ | concluding _ _ => cases h
  | updateAction result =>
      cases timer with
      | calling a =>
          cases result with
          | none => cases h; exact .raised rfl
          | some st =>
              cases h
              cases hc : st.conclusion? with
              | none => simpa only [Timer.after, hc] using Moves.monitored rfl hc
              | some c => simpa only [Timer.after, hc] using Moves.ended rfl hc
      | idle | concluding _ _ => cases h
  | conclude =>
      cases timer with
      | concluding a c => cases h; exact .concluded rfl
      | idle | calling _ => cases h

end Actions

end EgbFleet
