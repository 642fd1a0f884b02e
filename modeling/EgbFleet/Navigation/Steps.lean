import EgbFleet.Navigation.Machine

/-!
# Navigation — what a step can do

`Moves` lists the seven kinds of step; `navStep_moves` inverts `navStep` once.  What each thread's
step function computes is inverted once too, as a relation with a named case for each of its
branches: `ClosureStep`, `PathStep`, `ExecStep`, `CallStep`, `UpdateStep`, `StatusStep`.
-/

namespace EgbFleet

variable {G W : Type}

/-! ### The kinds of step -/

@[simp] theorem Exec.isIdle_iff {e : Exec G W} : e.isIdle = true ↔ e = .idle := by
  cases e <;> simp [Exec.isIdle]

@[simp] theorem FeedbackThread.isIdle_iff {t : FeedbackThread G} :
    t.isIdle = true ↔ t = .idle := by
  cases t <;> simp [FeedbackThread.isIdle]

/-- The steps of the machine. -/
inductive Moves [DecidableEq G] (s : State G W) : Action G W → State G W → Prop where
  | call (c : Call G W) (idle : s.exec = .idle) (fresh : ∀ g ∈ c.goalId?, s.mem.Fresh g) :
      Moves s (.call c)
        { s with mem := (c.start s.alive s.mem).1, exec := (c.start s.alive s.mem).2 }
  | exec (busy : s.exec ≠ .idle) :
      Moves s .exec
        { s with mem := (s.exec.step s.alive s.mem).1, exec := (s.exec.step s.alive s.mem).2 }
  | update :
      Moves s .update
        { s with mem := (s.update.step s.mem).1, update := (s.update.step s.mem).2 }
  | recvStatus (entries : StatusList G) :
      Moves s (.recvStatus entries) { s with status := s.status ++ [.lock entries] }
  | status (k : Nat) (t : StatusThread G) (at_k : s.status[k]? = some t) :
      Moves s (.status k)
        { s with
          mem := (t.step s.alive s.mem).1
          status := s.status.set k (t.step s.alive s.mem).2 }
  | recvFeedback (msg : FeedbackMessage G) (idle : s.feedback = .idle) :
      Moves s (.recvFeedback msg)
        { s with
          mem := s.mem.newReceipt.record (.feedback s.mem.nextReceipt msg)
          feedback := .lock s.mem.nextReceipt msg }
  | feedback :
      Moves s .feedback
        { s with
          mem := (s.feedback.step s.alive s.mem).1
          feedback := (s.feedback.step s.alive s.mem).2 }

theorem navStep_moves [DecidableEq G] {s s' : State G W} {a : Action G W}
    (h : navStep s a = some s') : Moves s a s' := by
  cases a with
  | call c =>
      simp only [navStep] at h
      split at h
      · rename_i hc
        cases h
        exact .call c (Exec.isIdle_iff.mp hc.1) hc.2
      · cases h
  | exec =>
      simp only [navStep] at h
      split at h
      · cases h
      · rename_i hc
        cases h
        exact .exec (mt Exec.isIdle_iff.mpr hc)
  | update => cases h; exact .update
  | recvStatus entries => cases h; exact .recvStatus entries
  | status k =>
      simp only [navStep] at h
      split at h
      · cases h
      · rename_i t ht
        split at h
        · cases h
        · cases h; exact .status k t ht
  | recvFeedback msg =>
      simp only [navStep] at h
      split at h
      · rename_i hc
        cases h
        exact .recvFeedback msg (FeedbackThread.isIdle_iff.mp hc)
      · cases h
  | feedback =>
      simp only [navStep] at h
      split at h
      · cases h
      · cases h; exact .feedback

/-- After thread `k` has taken its step, what holds of it and of the old threads holds of all. -/
theorem forall_status_set {l : List (StatusThread G)} {P : StatusThread G → Prop} {k : Nat}
    {t : StatusThread G} (ht : P t) (hl : ∀ u ∈ l, P u) : ∀ u ∈ l.set k t, P u := fun u hu => by
  rcases List.mem_or_eq_of_mem_set hu with hu | rfl
  · exact hl u hu
  · exact ht

/-! ### Closures -/

/-- `(f, m)` steps to `(m', f')`. -/
inductive ClosureStep (alive : SessionId → Bool) :
    Firing → Mem G W → Mem G W → Option Firing → Prop where
  | enterPath {k : Completion} {p : SessionId} {finished : Bool} {m : Mem G W}
      (hk : k.kind = .path p finished) :
      ClosureStep alive (.enter (.completion k)) m
        (if alive p then (m.record (.invoked (.completion k))).modify p .invalidate
          else m.record (.invoked (.completion k)))
        (some (.reset (.arrived p finished)))
  | enterDock {k : Completion} {m : Mem G W} (hk : k.kind = .dock) :
      ClosureStep alive (.enter (.completion k)) m
        ((m.record (.invoked (.completion k))).record (.docked (some k.call))) none
  | enterUndock {k : Completion} {a : ActionId} {m : Mem G W} (hk : k.kind = .undock a) :
      ClosureStep alive (.enter (.completion k)) m
        ((m.record (.invoked (.completion k))).setUndock a { m.undock a with navCompleted := true })
        none
  | enterFailure {p : SessionId} {m : Mem G W} :
      ClosureStep alive (.enter (.failure p)) m
        (if alive p then (m.record (.invoked (.failure p))).modify p .invalidate
          else m.record (.invoked (.failure p)))
        (some (.reset (.failed p)))
  | reset {t : Tail} {m : Mem G W} :
      ClosureStep alive (.reset t) m (m.setSession none) (some (.report t))
  | reportArrived {p : SessionId} {finished : Bool} {m : Mem G W} :
      ClosureStep alive (.report (.arrived p finished)) m
        (if finished then m.record (.finished p) else m) none
  | reportFailed {p : SessionId} {m : Mem G W} :
      ClosureStep alive (.report (.failed p)) m
        ((m.setPendingFailure true).record (.flagged p)) none

theorem closureStep (alive : SessionId → Bool) (f : Firing) (m : Mem G W) :
    ClosureStep alive f m (f.step alive m).1 (f.step alive m).2 := by
  cases f with
  | enter c =>
      cases c with
      | completion k =>
          obtain ⟨c, kind⟩ := k
          cases kind with
          | path p finished => exact .enterPath rfl
          | dock => exact .enterDock rfl
          | undock a => exact .enterUndock rfl
      | failure p => exact .enterFailure
  | reset t => exact .reset
  | report t =>
      cases t with
      | arrived p finished => exact .reportArrived
      | failed p => exact .reportFailed

/-! ### The executor -/

/-- `execute_path` as a relation. -/
inductive PathStep (alive : SessionId → Bool) (r : PathRequest G W) (m : Mem G W) :
    Mem G W → Exec G W → Prop where
  | locked {i : SessionId} {lanes : List Lane} (hi : m.lock alive = some i) :
      PathStep alive r m (m.drawGoal r) (.install ⟨r, m.nextCall, lanes⟩ i)
  | lost {k : CompletionKind} {lanes : List Lane} (hi : m.lock alive = none)
      (hk : r.callback = some k) :
      PathStep alive r m (m.drawGoal r)
        (.fire ⟨r, m.nextCall, lanes⟩ none (.enter (.completion ⟨m.nextCall, k⟩)))
  | lostSilent (hi : m.lock alive = none) (hk : r.callback = none) :
      PathStep alive r m ((m.drawGoal r).returnFrom r.caller) .idle

theorem pathStep (alive : SessionId → Bool) (r : PathRequest G W) (m : Mem G W) :
    PathStep alive r m (executePath alive r m).1 (executePath alive r m).2 := by
  unfold executePath
  split
  · rename_i i hi; exact .locked hi
  · rename_i hi
    split
    · rename_i k hk; exact .lost hi hk
    · rename_i hk; exact .lostSilent hi hk

theorem PathStep.sessions {alive : SessionId → Bool} {r : PathRequest G W} {m m' : Mem G W}
    {e' : Exec G W} (h : PathStep alive r m m' e') : m'.sessions = m.sessions := by
  cases h with
  | locked | lost => rfl
  | lostSilent => exact Mem.sessions_returnFrom _ _

theorem PathStep.session {alive : SessionId → Bool} {r : PathRequest G W} {m m' : Mem G W}
    {e' : Exec G W} (h : PathStep alive r m m' e') : m'.session = m.session := by
  cases h with
  | locked | lost => rfl
  | lostSilent => exact Mem.session_returnFrom _ _

theorem PathStep.nextSession {alive : SessionId → Bool} {r : PathRequest G W} {m m' : Mem G W}
    {e' : Exec G W} (h : PathStep alive r m m' e') : m'.nextSession = m.nextSession := by
  cases h with
  | locked | lost => rfl
  | lostSilent => exact Mem.nextSession_returnFrom _ _

/-- `Exec.step` as a relation. -/
inductive ExecStep (alive : SessionId → Bool) :
    Exec G W → Mem G W → Mem G W → Exec G W → Prop where
  | invalidateOld {f : FollowJob G W} {old : SessionId} {m : Mem G W} :
      ExecStep alive (.invalidateOld f old) m (m.modify old .invalidate) (.armSession f)
  | armSession {f : FollowJob G W} {m : Mem G W} :
      ExecStep alive (.armSession f) m
        (((m.setPendingFailure false).record .unflagged).modify f.path (.arm f.path f.estimator))
        (.setSession f)
  | setSession {f : FollowJob G W} {m : Mem G W} :
      ExecStep alive (.setSession f) m (m.setSessionWp f.path) (.executePath f)
  | executePath {f : FollowJob G W} {m m' : Mem G W} {e' : Exec G W}
      (h : PathStep alive f.request m m' e') : ExecStep alive (.executePath f) m m' e'
  | install {j : PathJob G W} {i : SessionId} {m : Mem G W} :
      ExecStep alive (.install j i) m
        (m.modify i (.install j.request.net.goalId j.completion j.request.estimator))
        (.sendGoal j i)
  | handOver {j : PathJob G W} {i : SessionId} {m : Mem G W} :
      ExecStep alive (.sendGoal j i) m
        (m.record (.sent j.call j.request.net.goalId j.request.waypoints j.lanes))
        (.awaitReply j i)
  | accepted {j : PathJob G W} {i : SessionId} {m : Mem G W}
      (h : sendWaypoints j.request.net j.request.waypoints = true) :
      ExecStep alive (.awaitReply j i) m (m.returnFrom j.request.caller) .idle
  | refused {j : PathJob G W} {i : SessionId} {m : Mem G W}
      (h : sendWaypoints j.request.net j.request.waypoints = false) :
      ExecStep alive (.awaitReply j i) m m (.notAccepted j i)
  | notAccepted {j : PathJob G W} {i : SessionId} {k : Completion} {m : Mem G W}
      (hk : (m.sessions i).completionCallback = some k) :
      ExecStep alive (.notAccepted j i) m (m.modify i .markDone)
        (.fire j (some i) (.enter (.completion k)))
  | notAcceptedSilent {j : PathJob G W} {i : SessionId} {m : Mem G W}
      (hk : (m.sessions i).completionCallback = none) :
      ExecStep alive (.notAccepted j i) m ((m.modify i .markDone).returnFrom j.request.caller)
        .idle
  | fire {j : PathJob G W} {i : Option SessionId} {f f' : Firing} {m m' : Mem G W}
      (h : ClosureStep alive f m m' (some f')) :
      ExecStep alive (.fire j i f) m m' (.fire j i f')
  | fired {j : PathJob G W} {i : Option SessionId} {f : Firing} {m m' : Mem G W}
      (h : ClosureStep alive f m m' none) :
      ExecStep alive (.fire j i f) m (m'.returnFrom j.request.caller) .idle
  | stopCancel {i : SessionId} {m : Mem G W} :
      ExecStep alive (.stopCancel i) m
        (if (m.sessions i).goalId.isSome then m.modify i .invalidate else m) .stopRead
  | stopRead {i : SessionId} {m : Mem G W} (hi : m.session = some i) :
      ExecStep alive .stopRead m m (.stopInvalidate i)
  | stopReadNone {m : Mem G W} (hi : m.session = none) :
      ExecStep alive .stopRead m m (.stopReset none)
  | stopInvalidate {i : SessionId} {m : Mem G W} :
      ExecStep alive (.stopInvalidate i) m (m.modify i .invalidate) (.stopReset (some i))
  | stopReset {held : Option SessionId} {m : Mem G W} :
      ExecStep alive (.stopReset held) m (m.setSession none) (.stopClear held)
  | stopClear {held : Option SessionId} {m : Mem G W} :
      ExecStep alive (.stopClear held) m
        (((m.setPendingFailure false).record .unflagged).record .stopReturned) .idle
  | cancel {i : SessionId} {m : Mem G W} :
      ExecStep alive (.cancel i) m
        (if (m.sessions i).goalId.isSome then m.modify i .invalidate else m) .idle

theorem execStep (alive : SessionId → Bool) {e : Exec G W} (he : e ≠ .idle) (m : Mem G W) :
    ExecStep alive e m (e.step alive m).1 (e.step alive m).2 := by
  cases e with
  | idle => exact absurd rfl he
  | invalidateOld f old => exact .invalidateOld
  | armSession f => exact .armSession
  | setSession f => exact .setSession
  | executePath f => exact .executePath (pathStep _ _ _)
  | install j i => exact .install
  | sendGoal j i => exact .handOver
  | awaitReply j i =>
      cases h : sendWaypoints j.request.net j.request.waypoints with
      | true => simpa [Exec.step, h] using ExecStep.accepted h
      | false => simpa [Exec.step, h] using ExecStep.refused h
  | notAccepted j i =>
      cases h : (m.sessions i).completionCallback with
      | some k => simpa only [Exec.step, h] using ExecStep.notAccepted h
      | none => simpa only [Exec.step, h] using ExecStep.notAcceptedSilent h
  | fire j i f =>
      have hf := closureStep alive f m
      rcases h : f.step alive m with ⟨m', _ | f'⟩ <;> rw [h] at hf
      · simpa only [Exec.step, h] using ExecStep.fired hf
      · simpa only [Exec.step, h] using ExecStep.fire hf
  | stopCancel i => exact .stopCancel
  | stopRead =>
      cases h : m.session with
      | some i => simpa only [Exec.step, h] using ExecStep.stopRead h
      | none => simpa only [Exec.step, h] using ExecStep.stopReadNone h
  | stopInvalidate i => exact .stopInvalidate
  | stopReset held => exact .stopReset
  | stopClear held => exact .stopClear
  | cancel i => exact .cancel

/-- `Call.start` as a relation. -/
inductive CallStep (alive : SessionId → Bool) :
    Call G W → Mem G W → Mem G W → Exec G W → Prop where
  | followEmpty {limits : List ℚ} {estimator finished : Bool} {net : Network G} {m : Mem G W} :
      CallStep alive (.followNewPath [] limits estimator finished net) m
        ((if finished then
            ((m.newSession limits).record (.followed m.nextSession [])).record
              (.finished m.nextSession)
          else (m.newSession limits).record (.followed m.nextSession [])).record
          (.followReturned m.nextSession)) .idle
  | follow {ws : List W} {limits : List ℚ} {estimator finished : Bool} {net : Network G}
      {m : Mem G W} (hws : ws ≠ []) (hs : m.session = none) :
      CallStep alive (.followNewPath ws limits estimator finished net) m
        (((m.newSession limits).record (.followed m.nextSession ws)).setSession
          (some m.nextSession))
        (.armSession ⟨m.nextSession, ws, estimator, finished, net⟩)
  | followOver {ws : List W} {limits : List ℚ} {estimator finished : Bool} {net : Network G}
      {old : SessionId} {m : Mem G W} (hws : ws ≠ []) (hs : m.session = some old) :
      CallStep alive (.followNewPath ws limits estimator finished net) m
        (((m.newSession limits).record (.followed m.nextSession ws)).setSession
          (some m.nextSession))
        (.invalidateOld ⟨m.nextSession, ws, estimator, finished, net⟩ old)
  | stop {i : SessionId} {m : Mem G W} (hi : m.lock alive = some i) :
      CallStep alive .stop m (m.record .stopCalled) (.stopCancel i)
  | stopNone {m : Mem G W} (hi : m.lock alive = none) :
      CallStep alive .stop m (m.record .stopCalled) .stopRead
  | noDock {finished : Bool} {net : Network G} {m : Mem G W} :
      CallStep alive (.dock none finished net) m
        (if finished then m.record (.docked none) else m) .idle
  | dock {ws : List W} {finished : Bool} {net : Network G} {m m' : Mem G W} {e' : Exec G W}
      (h : PathStep alive ⟨.dock, ws, if finished then some .dock else none, none, net⟩
        (m.record (.dockPlanned m.nextCall ws)) m' e') :
      CallStep alive (.dock (some ws) finished net) m m' e'
  | undock {a : ActionId} {env : UndockEnv W} {ws : List W} {net : Network G} {m m' : Mem G W}
      {e' : Exec G W} (ha : (m.undock a).state = .planning) (htime : env.timedOut = false)
      (hpath : env.path = some ws) (hnav : env.navigationInterface = true)
      (h : PathStep alive ⟨.undock a, ws, some (.undock a), none, net⟩
        (m.record (.undockPlanned a m.nextCall ws)) m' e') :
      CallStep alive (.updateAction a env net) m m' e'
  | undockReturns {a : ActionId} {env : UndockEnv W} {net : Network G} {m : Mem G W}
      {state : UndockState} {returned : RobotActionState}
      (hc : state = .completed ∨ returned = .completed →
        (m.undock a).navCompleted = true ∨ (m.undock a).state = .completed) :
      CallStep alive (.updateAction a env net) m
        ((m.setUndock a { m.undock a with state }).record (.actionReturned a returned)) .idle
  | cancelNavigation {i : SessionId} {m : Mem G W} (hi : m.lock alive = some i) :
      CallStep alive .cancelNavigation m (m.record .cancelCalled) (.cancel i)
  | cancelNone {m : Mem G W} (hi : m.lock alive = none) :
      CallStep alive .cancelNavigation m (m.record .cancelCalled) .idle

theorem startUpdateAction_callStep (alive : SessionId → Bool) (a : ActionId) (env : UndockEnv W)
    (net : Network G) (m : Mem G W) :
    CallStep alive (.updateAction a env net) m (startUpdateAction alive a env net m).1
      (startUpdateAction alive a env net m).2 := by
  unfold startUpdateAction
  split
  · rename_i ha
    split
    · exact .undockReturns (by rintro (h | h) <;> cases h)
    · rename_i htime
      split
      · exact .undockReturns (by rintro (h | h) <;> cases h)
      · rename_i ws hpath
        split
        · rename_i hnav
          exact .undock ha (Bool.eq_false_iff.mpr htime) hpath hnav (pathStep _ _ _)
        · exact .undockReturns (by rintro (h | h) <;> cases h)
  · split
    · rename_i hn
      exact .undockReturns fun _ => .inl hn
    · split
      · exact .undockReturns (by rintro (h | h) <;> cases h)
      · exact .undockReturns (by rintro (h | h) <;> cases h)
  · rename_i ha
    exact .undockReturns fun _ => .inr ha
  · exact .undockReturns (by rintro (h | h) <;> cases h)

theorem callStep (alive : SessionId → Bool) (c : Call G W) (m : Mem G W) :
    CallStep alive c m (c.start alive m).1 (c.start alive m).2 := by
  cases c with
  | followNewPath ws limits estimator finished net =>
      cases ws with
      | nil => exact .followEmpty
      | cons w ws =>
          cases h : m.session with
          | none => simpa [Call.start, h] using CallStep.follow (List.cons_ne_nil w ws) h
          | some old => simpa [Call.start, h] using CallStep.followOver (List.cons_ne_nil w ws) h
  | stop =>
      cases h : m.lock alive with
      | none => simpa only [Call.start, h] using CallStep.stopNone h
      | some i => simpa only [Call.start, h] using CallStep.stop h
  | dock path finished net =>
      cases path with
      | none => exact .noDock
      | some ws => exact .dock (pathStep _ _ _)
  | updateAction a env net => exact startUpdateAction_callStep alive a env net m
  | cancelNavigation =>
      cases h : m.lock alive with
      | none => simpa only [Call.start, h] using CallStep.cancelNone h
      | some i => simpa only [Call.start, h] using CallStep.cancelNavigation h

/-- `follow_new_path`, with or without waypoints. -/
def Call.isFollow : Call G W → Bool
  | .followNewPath _ _ _ _ _ => true
  | _ => false

/-! ### The update -/

/-- The session an update is draining. -/
def UpdateThread.drains? : UpdateThread → Option SessionId
  | .drainCheck i | .drainTake i => some i
  | _ => none

/-- The feedback an update is about to forward, and the path whose estimator it calls. -/
def UpdateThread.forwards? : UpdateThread → Option (SessionId × PendingFeedback)
  | .drainForward _ p fb => some (p, fb)
  | _ => none

/-- `UpdateThread.step` as a relation; a `read` writes nothing. -/
inductive UpdateStep : UpdateThread → Mem G W → Mem G W → UpdateThread → Prop where
  | read {u u' : UpdateThread} {m : Mem G W} (hu : u.forwards? = none ∧ u ≠ .replan)
      (hu' : u'.forwards? = none ∧ u' ≠ .replan)
      (hd : ∀ i, u'.drains? = some i → m.session = some i ∨ u.drains? = some i) :
      UpdateStep u m m u'
  | drainTake {i p : SessionId} {fb : PendingFeedback} {m : Mem G W}
      (hfb : (m.sessions i).pendingFeedback = some fb)
      (hp : (m.sessions i).rmfArrivalEstimator = some p) :
      UpdateStep (.drainTake i) m (m.modify i .clearFeedback) (.drainForward i p fb)
  | drainForward {i p : SessionId} {fb : PendingFeedback} {m : Mem G W} :
      UpdateStep (.drainForward i p fb) m (m.record (.arrival p fb)) .takeFailure
  | takeFailure {m : Mem G W} (h : m.pendingFailure = true) :
      UpdateStep .takeFailure m ((m.setPendingFailure false).record .consumed) .replan
  | replan {m : Mem G W} : UpdateStep .replan m (m.record .replan) .recovery

theorem updateStep (u : UpdateThread) (m : Mem G W) :
    UpdateStep u m (u.step m).1 (u.step m).2 := by
  cases u with
  | idle | recovery =>
      simp only [UpdateThread.step]
      split
      · exact .read ⟨rfl, nofun⟩ ⟨rfl, nofun⟩ nofun
      · exact .read ⟨rfl, nofun⟩ ⟨rfl, nofun⟩ nofun
  | drain =>
      simp only [UpdateThread.step]
      split
      · rename_i i hi
        exact .read ⟨rfl, nofun⟩ ⟨rfl, nofun⟩ (by rintro _ ⟨⟩; exact .inl hi)
      · exact .read ⟨rfl, nofun⟩ ⟨rfl, nofun⟩ nofun
  | lanes i | blocked i => exact .read ⟨rfl, nofun⟩ ⟨rfl, nofun⟩ nofun
  | drainCheck i =>
      cases h : (m.sessions i).done with
      | true => simpa [UpdateThread.step, h] using .read ⟨rfl, nofun⟩ ⟨rfl, nofun⟩ nofun
      | false => simpa [UpdateThread.step, h] using .read ⟨rfl, nofun⟩ ⟨rfl, nofun⟩ fun _ => .inr
  | drainTake i =>
      have none : UpdateStep (.drainTake i) m m .takeFailure :=
        .read ⟨rfl, nofun⟩ ⟨rfl, nofun⟩ nofun
      cases h : (m.sessions i).pendingFeedback with
      | none => simpa only [UpdateThread.step, h] using none
      | some fb =>
          cases h' : (m.sessions i).rmfArrivalEstimator with
          | none => simpa only [UpdateThread.step, h, h'] using none
          | some p => simpa only [UpdateThread.step, h, h'] using UpdateStep.drainTake h h'
  | drainForward i p fb => exact .drainForward
  | takeFailure =>
      cases h : m.pendingFailure with
      | true => simpa [UpdateThread.step, h] using UpdateStep.takeFailure h
      | false => simpa [UpdateThread.step, h] using .read ⟨rfl, nofun⟩ ⟨rfl, nofun⟩ nofun
  | replan => exact .replan

/-! ### The Zenoh threads -/

/-- `StatusThread.step` as a relation. -/
inductive StatusStep [DecidableEq G] (alive : SessionId → Bool) :
    StatusThread G → Mem G W → Mem G W → StatusThread G → Prop where
  | quiet {t t' : StatusThread G} {m : Mem G W}
      (ht : ∀ i f, t ≠ .fire i f) (ht' : ∀ i f, t' ≠ .fire i f) : StatusStep alive t m m t'
  | silent {i : SessionId} {entries : StatusList G} {g : G} {st : GoalStatus} {m : Mem G W}
      (hg : (m.sessions i).goalId = some g) (hst : entries.find g = some st)
      (hc : (m.sessions i).closureFor st = none) :
      StatusStep alive (.process i entries) m
        (if st.terminal then (m.record (.status i g st)).modify i .invalidate
          else m.record (.status i g st)) .done
  | take {i : SessionId} {entries : StatusList G} {g : G} {st : GoalStatus} {c : Closure}
      {m : Mem G W} (hg : (m.sessions i).goalId = some g) (hst : entries.find g = some st)
      (hc : (m.sessions i).closureFor st = some c) :
      StatusStep alive (.process i entries) m ((m.record (.status i g st)).modify i .invalidate)
        (.fire i (.enter c))
  | fire {i : SessionId} {f f' : Firing} {m m' : Mem G W}
      (h : ClosureStep alive f m m' (some f')) :
      StatusStep alive (.fire i f) m m' (.fire i f')
  | fired {i : SessionId} {f : Firing} {m m' : Mem G W} (h : ClosureStep alive f m m' none) :
      StatusStep alive (.fire i f) m m' .done

/-- Only a terminal status has a closure. -/
theorem terminal_of_closureFor {σ : NavigationSession G} {st : GoalStatus} {c : Closure}
    (h : σ.closureFor st = some c) : st.terminal = true := by
  cases st with
  | succeeded | canceled | aborted => rfl
  | accepted | executing | other _ => cases h

theorem completion_of_closureFor {σ : NavigationSession G} {st : GoalStatus} {k : Completion}
    (h : σ.closureFor st = some (.completion k)) :
    st = .succeeded ∧ σ.completionCallback = some k := by
  cases st with
  | succeeded =>
      obtain ⟨k', hk, ⟨⟩⟩ := Option.map_eq_some_iff.mp h
      exact ⟨rfl, hk⟩
  | canceled | aborted =>
      obtain ⟨p, -, hp⟩ := Option.map_eq_some_iff.mp h
      cases hp
  | accepted | executing | other _ => cases h

theorem failure_of_closureFor {σ : NavigationSession G} {st : GoalStatus} {p : SessionId}
    (h : σ.closureFor st = some (.failure p)) : st.failed = true ∧ σ.failureCallback = some p := by
  cases st with
  | succeeded =>
      obtain ⟨k, -, hk⟩ := Option.map_eq_some_iff.mp h
      cases hk
  | canceled | aborted =>
      obtain ⟨p', hp, ⟨⟩⟩ := Option.map_eq_some_iff.mp h
      exact ⟨rfl, hp⟩
  | accepted | executing | other _ => cases h

theorem statusStep [DecidableEq G] (alive : SessionId → Bool) (t : StatusThread G) (m : Mem G W) :
    StatusStep alive t m (t.step alive m).1 (t.step alive m).2 := by
  cases t with
  | lock entries =>
      refine .quiet (fun _ _ h => by cases h) fun i f h => ?_
      simp only [StatusThread.step] at h
      split at h <;> cases h
  | process i entries =>
      cases hg : (m.sessions i).goalId with
      | none =>
          simpa only [StatusThread.step, hg] using
            StatusStep.quiet (fun _ _ h => by cases h) (fun _ _ h => by cases h)
      | some g =>
          cases hst : entries.find g with
          | none =>
              simpa only [StatusThread.step, hg, hst] using
                StatusStep.quiet (fun _ _ h => by cases h) (fun _ _ h => by cases h)
          | some st =>
              cases hc : (m.sessions i).closureFor st with
              | none =>
                  simpa only [StatusThread.step, hg, hst, hc] using StatusStep.silent hg hst hc
              | some c =>
                  simpa only [StatusThread.step, hg, hst, hc, terminal_of_closureFor hc, if_true]
                    using StatusStep.take hg hst hc
  | fire i f =>
      have hf := closureStep alive f m
      rcases h : f.step alive m with ⟨m', _ | f'⟩ <;> rw [h] at hf
      · simpa only [StatusThread.step, h] using StatusStep.fired hf
      · simpa only [StatusThread.step, h] using StatusStep.fire hf
  | done => exact .quiet (fun _ _ h => by cases h) (fun _ _ h => by cases h)

/-! ### Closures in flight -/

/-- What `status_callback` finds in its critical section. -/
structure Found (G : Type) where
  session : SessionId
  goal : G
  status : GoalStatus
  deriving DecidableEq

/-- The entry status callback `k` finds in its next step: the first for the goal of the session
it has locked. -/
def State.finds [DecidableEq G] (s : State G W) (k : Nat) : Option (Found G) :=
  match s.status[k]? with
  | some (.process i entries) =>
      match (s.mem.sessions i).goalId with
      | some g => (entries.find g).map (Found.mk i g)
      | none => none
  | _ => none

/-- The closure status callback `k` copies out for what it has found. -/
def State.taken (s : State G W) (x : Found G) : Option Closure :=
  (s.mem.sessions x.session).closureFor x.status

theorem State.finds_eq_some [DecidableEq G] {s : State G W} {k : Nat} {x : Found G} :
    s.finds k = some x ↔ ∃ entries, s.status[k]? = some (.process x.session entries) ∧
      (s.mem.sessions x.session).goalId = some x.goal ∧ entries.find x.goal = some x.status := by
  constructor
  · intro h
    unfold State.finds at h
    split at h
    · rename_i i entries hk
      split at h
      · rename_i g hg
        obtain ⟨st, hst, rfl⟩ := Option.map_eq_some_iff.mp h
        exact ⟨entries, hk, hg, hst⟩
      · cases h
    · cases h
  · rintro ⟨entries, hk, hg, hst⟩
    simp [State.finds, hk, hg, hst]

/-- If thread `t` is running a closure, it is one of which `Φ` holds. -/
def StatusThread.Fires (Φ : SessionId → Firing → Prop) : StatusThread G → Prop
  | .fire i f => Φ i f
  | .lock _ | .process _ _ | .done => True

theorem StatusThread.Fires.mono {Φ Ψ : SessionId → Firing → Prop} (h : ∀ i f, Φ i f → Ψ i f)
    {t : StatusThread G} (ht : t.Fires Φ) : t.Fires Ψ := by
  cases t with
  | fire i f => exact h i f ht
  | lock _ | process _ _ | done => trivial

theorem StatusThread.fires_of_ne {Φ : SessionId → Firing → Prop} {t : StatusThread G}
    (h : ∀ i f, t ≠ .fire i f) : t.Fires Φ := by
  cases t with
  | fire i f => exact absurd rfl (h i f)
  | lock _ | process _ _ | done => trivial

/-- **Closures in flight.**  What a step does not take away from the closures the status callbacks
run, what holds of those it takes out of a session, and what each keeps when it steps itself. -/
theorem Moves.fires [DecidableEq G] {s s' : State G W} {a : Action G W}
    {Φ Ψ : SessionId → Firing → Prop} (h : Moves s a s') (hs : ∀ t ∈ s.status, t.Fires Φ)
    (keep : ∀ i f, Φ i f → Ψ i f)
    (take : ∀ k x c, a = .status k → s.finds k = some x → s.taken x = some c →
      s'.mem = (s.mem.record (.status x.session x.goal x.status)).modify x.session .invalidate →
      Ψ x.session (.enter c))
    (fire : ∀ k i f f', a = .status k → ClosureStep s.alive f s.mem s'.mem (some f') → Φ i f →
      Ψ i f') : ∀ t ∈ s'.status, t.Fires Ψ := by
  have old : ∀ t ∈ s.status, t.Fires Ψ := fun t ht => (hs t ht).mono keep
  cases h with
  | call | exec | update | recvFeedback | feedback => exact old
  | recvStatus entries =>
      intro t ht
      rcases List.mem_append.mp ht with ht | ht
      · exact old t ht
      · rw [List.mem_singleton.mp ht]; trivial
  | status k t at_k =>
      refine forall_status_set ?_ old
      have ht := hs t (List.mem_of_getElem? at_k)
      have hk := statusStep s.alive t s.mem
      dsimp only at take fire
      generalize (t.step s.alive s.mem).1 = m', (t.step s.alive s.mem).2 = t' at hk take fire ⊢
      cases hk with
      | quiet _ ht' => exact StatusThread.fires_of_ne ht'
      | silent | fired => trivial
      | @take i entries g st c m hg hst hc =>
          exact take k ⟨i, g, st⟩ c rfl (State.finds_eq_some.mpr ⟨entries, at_k, hg, hst⟩) hc rfl
      | fire h => exact fire k _ _ _ rfl h ht

end EgbFleet
