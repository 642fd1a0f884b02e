import EgbFleet.Actions.Concluded
import EgbFleet.Navigation.Accomplished
import EgbFleet.Navigation.Returns
import EgbFleet.Support.Simulation

/-!
# Actions — dispatching an undock

`polling` leaves open what `update_action` does, and `navigation` when it is called.  Here they are
one machine: `execute_action` makes and stores an undock action, and `update_current_action` calls
the stored action's `update_action`, which takes its steps in the navigation stack, with RMF's other
calls and Zenoh's callbacks in between.  The action's own clock starts when it is made.

As in `navigation`, the calls of the executor come one after the other.  Each component of the
machine is in a state it reaches by itself (`dispatch_refines`), and what `update_current_action` is
told is what the navigation stack has recorded (`Synced`).
-/

namespace EgbFleet.Actions

variable {G W : Type}

/-! ### The machine -/

structure Dispatch (G W : Type) where
  polling : State
  nav : EgbFleet.State G W
  /-- `creation_time_` of each action, in nanoseconds of `std::chrono::steady_clock`. -/
  creationTime : ActivityId → ℤ

inductive DispatchAction (G W : Type) where
  /-- RMF calls `execute_action`, which makes an action at this time, or makes none. -/
  | executeAction (created : Bool) (now : ℤ)
  /-- The timer calls `update_current_action`.  If an action is stored, it is asked at this time,
  and finds this path and `navigation_interface_`. -/
  | updateCurrentAction (now : ℤ) (path : Option (List W)) (navigationInterface : Bool)
      (net : Network G)
  /-- The critical section of `update_current_action` for an action that has ended. -/
  | conclude
  /-- Any other step of the navigation stack. -/
  | navigate (a : EgbFleet.Action G W)

namespace Dispatch

/-- The whole seconds since the action was made. -/
def elapsed (s : Dispatch G W) (a : ActivityId) (now : ℤ) : ℤ :=
  (now - s.creationTime a).tdiv 1000000000

def env (s : Dispatch G W) (a : ActivityId) (now : ℤ) (path : Option (List W))
    (navigationInterface : Bool) : UndockEnv W where
  timedOut := decide (60 < s.elapsed a now)
  path := path
  navigationInterface := navigationInterface

/-- What `update_action` returns, if it is being called and the step to `nav` is its last: it has
recorded that. -/
def returned (s : Dispatch G W) (nav : EgbFleet.State G W) : Option RobotActionState :=
  match s.polling.timer with
  | .calling _ =>
      if nav.exec.isIdle then (nav.mem.log.head?.bind EgbFleet.Event.returned?).map Prod.snd
      else none
  | .idle | .concluding _ _ => none

variable [DecidableEq G]

/-- The navigation stack takes a step. -/
def move (s : Dispatch G W) (a : EgbFleet.Action G W) : Option (Dispatch G W) :=
  (navStep s.nav a).bind fun nav =>
    match s.returned nav with
    | none => some { s with nav }
    | some state =>
        (Actions.step s.polling (.updateAction (some state))).map fun polling =>
          { s with nav, polling }

def step (s : Dispatch G W) : DispatchAction G W → Option (Dispatch G W)
  | .executeAction created now =>
      (Actions.step s.polling (.executeAction created)).map fun polling =>
        { s with
          polling
          creationTime := Function.update s.creationTime s.polling.nextActivity now }
  | .updateCurrentAction now path navigationInterface net =>
      (Actions.step s.polling .updateCurrentAction).bind fun polling =>
        match polling.timer with
        | .calling a =>
            move { s with polling }
              (.call (.updateAction a (s.env a now path navigationInterface) net))
        | .idle | .concluding _ _ => some { s with polling }
  | .conclude => (Actions.step s.polling .conclude).map fun polling => { s with polling }
  | .navigate (.call (.updateAction _ _ _)) => none
  | .navigate a => s.move a

end Dispatch

/-- The undock actions of one robot. -/
def dispatch (G W : Type) [DecidableEq G] : Lts (Dispatch G W) (DispatchAction G W) where
  init := ⟨polling.init, navStart, fun _ => 0⟩
  step := Dispatch.step

namespace Dispatch

/-! ### What ties the two together -/

/-- What `update_current_action` is waiting for is under way, and what it was told was returned. -/
structure Synced (s : Dispatch G W) : Prop where
  runs : ∀ a, s.nav.exec.undocks? = some a ↔ s.polling.timer = .calling a
  returned : ∀ a st, .returned a st ∈ s.polling.log ↔ .actionReturned a st ∈ s.nav.mem.log
  uncanceled : ∀ a, .actionReturned a .canceled ∉ s.nav.mem.log

/-- The timer's `update_action` returns. -/
def told (a : ActivityId) (st : RobotActionState) (s : State) : State :=
  { s with timer := .after a st, log := .returned a st :: s.log }

theorem after_ne_calling (a b : ActivityId) (st : RobotActionState) :
    Timer.after a st ≠ .calling b := by
  unfold Timer.after
  split <;> nofun

/-- A call returns, to the timer as to the log. -/
theorem Synced.told {s : Dispatch G W} (hs : Synced s) {a : ActivityId} {st : RobotActionState}
    {nav : EgbFleet.State G W} {h : List (EgbFleet.Event G W)} (hst : st ≠ .canceled)
    (exec : nav.exec = .idle) (tacit : Tacit s.nav.mem.log h)
    (log : nav.mem.log = .actionReturned a st :: h) :
    Synced { s with polling := told a st s.polling, nav } where
  runs := fun b => by
    refine iff_of_false (fun hb => ?_) (after_ne_calling a b st)
    rw [exec] at hb
    cases hb
  returned := fun b st' => by
    have hback : .actionReturned b st' ∈ h ↔ .actionReturned b st' ∈ s.nav.mem.log := by
      rw [← mem_returns, tacit.returns, mem_returns]
    rw [log, List.mem_cons, hback, ← hs.returned b st']
    simp [Dispatch.told]
  uncanceled := fun b hb => by
    rw [log] at hb
    rcases List.mem_cons.mp hb with e | hb
    · cases e
      exact hst rfl
    · exact hs.uncanceled b (Log.Grows.back tacit rfl hb)

/-- No call returns. -/
theorem Synced.tacit {s : Dispatch G W} (hs : Synced s) {polling : State}
    {nav : EgbFleet.State G W} {creationTime : ActivityId → ℤ}
    (runs : ∀ a, nav.exec.undocks? = some a ↔ polling.timer = .calling a)
    (log : ∀ a st, .returned a st ∈ polling.log ↔ .returned a st ∈ s.polling.log)
    (tacit : Tacit s.nav.mem.log nav.mem.log) : Synced ⟨polling, nav, creationTime⟩ where
  runs := runs
  returned := fun a st => by
    rw [log a st, hs.returned a st, ← mem_returns, ← mem_returns, tacit.returns]
  uncanceled := fun a ha => hs.uncanceled a (Log.Grows.back tacit rfl ha)

section

variable [DecidableEq G]

/-- `step`, by what moves. -/
inductive Moves (s : Dispatch G W) : DispatchAction G W → Dispatch G W → Prop where
  | executes {created : Bool} {now : ℤ} {polling : State}
      (h : Actions.step s.polling (.executeAction created) = some polling) :
      Moves s (.executeAction created now)
        { s with
          polling
          creationTime := Function.update s.creationTime s.polling.nextActivity now }
  | unset {now : ℤ} {path : Option (List W)} {navigationInterface : Bool} {net : Network G}
      (idle : s.polling.timer = .idle) (unset : s.polling.currentAction = none) :
      Moves s (.updateCurrentAction now path navigationInterface net) s
  | starts {now : ℤ} {path : Option (List W)} {navigationInterface : Bool} {net : Network G}
      {a : ActivityId} {nav : EgbFleet.State G W} (idle : s.polling.timer = .idle)
      (current : s.polling.currentAction = some a)
      (hnav : navStep s.nav (.call (.updateAction a (s.env a now path navigationInterface) net)) =
        some nav)
      (inTime : s.elapsed a now ≤ 60) (runs : nav.exec.undocks? = some a)
      (tacit : Tacit s.nav.mem.log nav.mem.log) :
      Moves s (.updateCurrentAction now path navigationInterface net)
        { s with polling := { s.polling with timer := .calling a }, nav }
  | asks {now : ℤ} {path : Option (List W)} {navigationInterface : Bool} {net : Network G}
      {a : ActivityId} {nav : EgbFleet.State G W} {state : UndockState} {st : RobotActionState}
      (idle : s.polling.timer = .idle) (current : s.polling.currentAction = some a)
      (hnav : navStep s.nav (.call (.updateAction a (s.env a now path navigationInterface) net)) =
        some nav)
      (returns : UndockReturns (s.env a now path navigationInterface) (s.nav.mem.undock a) state st)
      (exec : nav.exec = .idle) (log : nav.mem.log = .actionReturned a st :: s.nav.mem.log) :
      Moves s (.updateCurrentAction now path navigationInterface net)
        { s with polling := told a st s.polling, nav }
  | concludes {a : ActivityId} {c : Conclusion} (concluding : s.polling.timer = .concluding a c) :
      Moves s .conclude { s with polling := { s.polling.conclude c with timer := .idle } }
  | navigates {b : EgbFleet.Action G W} {nav : EgbFleet.State G W}
      (hnav : navStep s.nav b = some nav) (tacit : Tacit s.nav.mem.log nav.mem.log)
      (runs : nav.exec.undocks? = s.nav.exec.undocks?) : Moves s (.navigate b) { s with nav }
  | returns {a : ActivityId} {nav : EgbFleet.State G W} {h : List (EgbFleet.Event G W)}
      (calling : s.polling.timer = .calling a) (hnav : navStep s.nav .exec = some nav)
      (exec : nav.exec = .idle) (tacit : Tacit s.nav.mem.log h)
      (log : nav.mem.log = .actionReturned a .inProgress :: h) :
      Moves s (.navigate .exec) { s with polling := told a .inProgress s.polling, nav }

/-- A step that is not the last of a call of `update_action`. -/
theorem move_of_runs {s : Dispatch G W} {b : EgbFleet.Action G W} {nav : EgbFleet.State G W}
    (hnav : navStep s.nav b = some nav)
    (hruns : ∀ a, s.polling.timer = .calling a → nav.exec.undocks? = some a) :
    s.move b = some { s with nav } := by
  have hreturned : s.returned nav = none := by
    unfold returned
    split
    · rename_i a ha
      rw [if_neg]
      intro hidle
      have hr := hruns a ha
      cases he : nav.exec with
      | idle => rw [he] at hr; cases hr
      | _ => rw [he] at hidle; cases hidle
    · rfl
    · rfl
  simp [move, hnav, hreturned]

/-- A step that is. -/
theorem move_of_returned {s : Dispatch G W} {b : EgbFleet.Action G W}
    {nav : EgbFleet.State G W} {a : ActivityId} {st : RobotActionState}
    {h : List (EgbFleet.Event G W)} (hnav : navStep s.nav b = some nav)
    (calling : s.polling.timer = .calling a) (exec : nav.exec = .idle)
    (log : nav.mem.log = .actionReturned a st :: h) :
    s.move b = some { s with polling := told a st s.polling, nav } := by
  have hreturned : s.returned nav = some st := by
    simp [returned, calling, exec, Exec.isIdle, log, EgbFleet.Event.returned?]
  simp [move, hnav, hreturned, Actions.step, calling, told]

theorem step_moves {s s' : Dispatch G W} {act : DispatchAction G W} (h : s.step act = some s')
    (hs : Synced s) : Moves s act s' := by
  have navigate {b : EgbFleet.Action G W} (hb : ∀ a env net, b ≠ .call (.updateAction a env net))
      (h : s.move b = some s') : Moves s (.navigate b) s' := by
    obtain ⟨nav, hnav, -⟩ := Option.bind_eq_some_iff.mp h
    cases (navStep_moves hnav).calls with
    | aside other tacit runs =>
        have hmove := move_of_runs hnav fun a ha => runs.trans ((hs.runs a).mpr ha)
        cases hmove.symm.trans h
        exact .navigates hnav tacit runs
    | starts | returnsAtOnce => exact absurd rfl (hb _ _ _)
    | returns runs idle tacit log =>
        have calling := (hs.runs _).mp runs
        cases (move_of_returned hnav calling idle log).symm.trans h
        exact .returns calling hnav idle tacit log
  cases act with
  | executeAction created now =>
      simp only [step] at h
      obtain ⟨polling, hp, rfl⟩ := Option.map_eq_some_iff.mp h
      exact .executes hp
  | updateCurrentAction now path navigationInterface net =>
      simp only [step] at h
      obtain ⟨polling, hp, h⟩ := Option.bind_eq_some_iff.mp h
      cases Actions.step_moves hp with
      | unset idle unset =>
          rw [idle] at h
          cases h
          exact .unset idle unset
      | @snapshot a idle current =>
          obtain ⟨nav, hnav, -⟩ := Option.bind_eq_some_iff.mp h
          cases (navStep_moves hnav).calls with
          | aside other => exact absurd rfl (other _ _ _)
          | starts state inTime tacit runs =>
              have hmove := move_of_runs (s := { s with
                polling := { s.polling with timer := .calling a } }) hnav fun b hb => by
                  cases hb
                  exact runs
              cases hmove.symm.trans h
              exact .starts idle current hnav (Int.not_lt.mp (of_decide_eq_false inTime)) runs tacit
          | returnsAtOnce exec returns log =>
              have hmove := move_of_returned (s := { s with
                polling := { s.polling with timer := .calling a } }) hnav rfl exec log
              cases hmove.symm.trans h
              exact .asks idle current hnav returns exec log
  | conclude =>
      simp only [step] at h
      obtain ⟨polling, hp, rfl⟩ := Option.map_eq_some_iff.mp h
      cases Actions.step_moves hp with
      | concluded concluding => exact .concludes concluding
  | navigate b =>
      cases b with
      | call c =>
          cases c with
          | updateAction a env net => cases h
          | followNewPath | stop | dock | cancelNavigation => exact navigate nofun h
      | exec | update | recvStatus | status | recvFeedback | feedback => exact navigate nofun h

theorem Synced.step {s s' : Dispatch G W} {act : DispatchAction G W} (hs : Synced s)
    (h : Moves s act s') : Synced s' := by
  cases h with
  | executes h =>
      cases Actions.step_moves h with
      | dropped => exact hs.tacit hs.runs (fun _ _ => Iff.rfl) (.refl _)
      | stored => exact hs.tacit hs.runs (by simp [State.store]) (.refl _)
  | unset => exact hs
  | starts idle current hnav inTime runs tacit =>
      refine hs.tacit (fun b => ?_) (fun _ _ => Iff.rfl) tacit
      rw [runs]
      simp
  | asks idle current hnav returns exec log =>
      exact hs.told (by cases returns <;> simp) exec (.refl _) log
  | @concludes a c concluding =>
      refine hs.tacit (fun b => iff_of_false (fun hb => ?_) (by simp)) (fun b st => ?_) (.refl _)
      · rw [(hs.runs b).mp hb] at concluding
        cases concluding
      · cases hexec : s.polling.currentActionExecution <;> simp [State.conclude, hexec]
  | navigates hnav tacit runs =>
      exact hs.tacit (fun b => by rw [runs]; exact hs.runs b) (fun _ _ => Iff.rfl) tacit
  | returns calling hnav exec tacit log => exact hs.told (by simp) exec tacit log

theorem Synced.init : Synced (dispatch G W).init where
  runs := fun _ => iff_of_false nofun nofun
  returned := fun _ _ => iff_of_false nofun nofun
  uncanceled := nofun

/-! ### The parts -/

/-- What an action makes the navigation stack do. -/
def nav? (s : Dispatch G W) : DispatchAction G W → Option (EgbFleet.Action G W)
  | .updateCurrentAction now path navigationInterface net =>
      s.polling.currentAction.map fun a =>
        .call (.updateAction a (s.env a now path navigationInterface) net)
  | .navigate a => some a
  | .executeAction _ _ | .conclude => none

/-- RMF has an action executed only when none is. -/
def Vacant (s : Dispatch G W) : DispatchAction G W → Prop
  | .executeAction created _ => Actions.Vacant s.polling (.executeAction created)
  | .updateCurrentAction _ _ _ _ | .conclude | .navigate _ => True

/-- The navigation stack's step meets a condition. -/
def Meets (Q : EgbFleet.State G W → EgbFleet.Action G W → Prop) (s : Dispatch G W)
    (act : DispatchAction G W) : Prop :=
  ∀ a ∈ s.nav? act, Q s.nav a

theorem run_step {s s' : State} {a : Step} (hs : Actions.Vacant s a)
    (h : Actions.step s a = some s') : Actions.polling.Run Actions.Vacant s [a] s' :=
  .one hs h

theorem run_told {s : State} {a : ActivityId} (calling : s.timer = .calling a)
    (st : RobotActionState) :
    Actions.polling.Run Actions.Vacant s [.updateAction (some st)] (told a st s) :=
  run_step trivial (by simp [Actions.step, calling, told])

theorem run_snapshot {s : State} {a : ActivityId} (idle : s.timer = .idle)
    (current : s.currentAction = some a) :
    Actions.polling.Run Actions.Vacant s [.updateCurrentAction] { s with timer := .calling a } :=
  run_step trivial (by simp [Actions.step, idle, current])

theorem run_nav {Q : EgbFleet.State G W → EgbFleet.Action G W → Prop} {s s' : EgbFleet.State G W}
    {a : EgbFleet.Action G W} (hs : Q s a) (h : navStep s a = some s') :
    (navigation G W).Run Q s [a] s' :=
  .one hs h

theorem simulates_polling {P : Dispatch G W → DispatchAction G W → Prop}
    (hP : ∀ s a, P s a → s.Vacant a) :
    Lts.Simulates (dispatch G W) P Actions.polling Actions.Vacant Dispatch.polling Synced := by
  intro s act s' hact hstep hs
  have h := step_moves hstep hs
  refine ⟨hs.step h, ?_⟩
  cases h with
  | @executes created now polling h =>
      exact ⟨[.executeAction created], run_step (hP _ _ hact) h⟩
  | unset | navigates => exact ⟨[], .nil _⟩
  | starts idle current => exact ⟨_, run_snapshot idle current⟩
  | @asks _ _ _ _ a _ _ st idle current =>
      exact ⟨_, (run_snapshot idle current).append (run_told (s := { s.polling with
        timer := .calling a }) rfl st)⟩
  | concludes concluding =>
      exact ⟨_, run_step (a := .conclude) trivial (by simp [Actions.step, concluding])⟩
  | returns calling => exact ⟨_, run_told calling .inProgress⟩

theorem simulates_navigation {P : Dispatch G W → DispatchAction G W → Prop}
    {Q : EgbFleet.State G W → EgbFleet.Action G W → Prop} (hP : ∀ s a, P s a → s.Meets Q a) :
    Lts.Simulates (dispatch G W) P (navigation G W) Q Dispatch.nav Synced := by
  intro s act s' hact hstep hs
  have h := step_moves hstep hs
  have hmeets := hP _ _ hact
  refine ⟨hs.step h, ?_⟩
  cases h with
  | executes | unset | concludes => exact ⟨[], .nil _⟩
  | starts idle current hnav | asks idle current hnav =>
      exact ⟨_, run_nav (hmeets _ (by simp [nav?, current])) hnav⟩
  | navigates hnav | returns _ hnav => exact ⟨_, run_nav (hmeets _ rfl) hnav⟩

/-- The parts of the machine: where the steps of a run meet the conditions, the polling and the
navigation stack reach their states by themselves, and agree on what has been returned. -/
theorem dispatch_refines {P : Dispatch G W → DispatchAction G W → Prop}
    {Q : EgbFleet.State G W → EgbFleet.Action G W → Prop} (hV : ∀ s a, P s a → s.Vacant a)
    (hQ : ∀ s a, P s a → s.Meets Q a) {s : Dispatch G W} (h : (dispatch G W).Reach P s) :
    Synced s ∧ Actions.polling.Reach Actions.Vacant s.polling ∧
      (navigation G W).Reach Q s.nav := by
  obtain ⟨hs, hpolling⟩ := h.simulates (simulates_polling hV) rfl .init
  exact ⟨hs, hpolling, (h.simulates (simulates_navigation hQ) rfl .init).2⟩

end

end Dispatch

end EgbFleet.Actions
