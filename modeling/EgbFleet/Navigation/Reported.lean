import EgbFleet.Navigation.Feedback

/-!
# Navigation — what is read of a session

`RobotState::update` reads two things of the session in `session_`: `get_navigation_lanes` its
target, `check_deadlock_recovery` its failure reason.  Here is what they may be, in every state and
whatever the order of the threads' steps.

* The session in `session_` is that of the path last followed with waypoints, and no `stop` has
  returned since (`SessionActive`).
* A target other than 0 was reported by feedback for a goal of the session's own path, and a failure
  by feedback for a goal that some `execute_path` drew (`Reported`).

Only the feedback callback writes the two fields; `SessionWrite` lists what the other threads write.
-/

namespace EgbFleet

variable {G W : Type}

/-! ### What a step writes into a session -/

/-- A critical section of a session, or the making of one, outside the feedback callback. -/
inductive SessionWrite (σ : NavigationSession G) : NavigationSession G → Prop where
  | same : SessionWrite σ σ
  | new (limits : List ℚ) : SessionWrite σ { waypointSpeedLimits := limits }
  | invalidate : SessionWrite σ σ.invalidate
  | arm (p : SessionId) (estimator : Bool) : SessionWrite σ (σ.arm p estimator)
  | install (g : G) (completion : Option Completion) (estimator : Option SessionId) :
      SessionWrite σ (σ.install g completion estimator)
  | markDone : SessionWrite σ σ.markDone
  | clearFeedback : SessionWrite σ σ.clearFeedback

/-- Each session is written once at most. -/
def Writes (m m' : Mem G W) : Prop := ∀ i, SessionWrite (m.sessions i) (m'.sessions i)

theorem Writes.of_sessions {m m' : Mem G W} (h : m'.sessions = m.sessions) : Writes m m' :=
  fun _ => h ▸ .same

theorem Writes.modify {m m₀ : Mem G W} (h : m₀.sessions = m.sessions) {i : SessionId}
    {f : NavigationSession G → NavigationSession G}
    (hf : SessionWrite (m.sessions i) (f (m.sessions i))) : Writes m (m₀.modify i f) := fun j =>
  Mem.sessions_modify_rec i f m₀ j (h ▸ hf) fun _ => h ▸ .same

theorem Writes.newSession {m m' : Mem G W} {limits : List ℚ}
    (h : m'.sessions = (m.newSession limits).sessions) : Writes m m' := fun i => by
  rw [h]
  exact Mem.sessions_newSession_rec m limits i (.new limits) fun _ => .same

theorem ClosureStep.writes {alive : SessionId → Bool} {f : Firing} {f' : Option Firing}
    {m m' : Mem G W} (h : ClosureStep alive f m m' f') : Writes m m' := by
  cases h with
  | enterPath | enterFailure =>
      split
      · exact .modify rfl .invalidate
      · exact .of_sessions rfl
  | enterDock | enterUndock | reset | reportFailed => exact .of_sessions rfl
  | reportArrived => split <;> exact .of_sessions rfl

theorem ExecStep.writes {alive : SessionId → Bool} {e e' : Exec G W} {m m' : Mem G W}
    (h : ExecStep alive e m m' e') : Writes m m' := by
  cases h with
  | invalidateOld | stopInvalidate => exact .modify rfl .invalidate
  | armSession => exact .modify rfl (.arm _ _)
  | executePath h => exact .of_sessions h.sessions
  | install => exact .modify rfl (.install _ _ _)
  | accepted => exact .of_sessions (Mem.sessions_returnFrom _ _)
  | notAccepted => exact .modify rfl .markDone
  | @notAcceptedSilent j i m _ =>
      intro k
      rw [Mem.sessions_returnFrom]
      exact Writes.modify rfl .markDone k
  | fire h => exact h.writes
  | fired h =>
      intro k
      rw [Mem.sessions_returnFrom]
      exact h.writes k
  | stopCancel | cancel =>
      split
      · exact .modify rfl .invalidate
      · exact .of_sessions rfl
  | _ => exact .of_sessions rfl

theorem CallStep.writes {alive : SessionId → Bool} {c : Call G W} {e' : Exec G W} {m m' : Mem G W}
    (h : CallStep alive c m m' e') : Writes m m' := by
  cases h with
  | @followEmpty limits estimator finished net m =>
      have hnew : Writes m (m.newSession limits) := .newSession rfl
      cases finished <;> exact hnew
  | follow | followOver => exact .newSession rfl
  | noDock => split <;> exact .of_sessions rfl
  | dock h | undock _ _ _ _ h => exact .of_sessions h.sessions
  | _ => exact .of_sessions rfl

theorem UpdateStep.writes {u u' : UpdateThread} {m m' : Mem G W} (h : UpdateStep u m m' u') :
    Writes m m' := by
  cases h with
  | drainTake => exact .modify rfl .clearFeedback
  | read | drainForward | takeFailure | replan => exact .of_sessions rfl

theorem StatusStep.writes [DecidableEq G] {alive : SessionId → Bool} {t t' : StatusThread G}
    {m m' : Mem G W} (h : StatusStep alive t m m' t') : Writes m m' := by
  cases h with
  | quiet => exact .of_sessions rfl
  | silent =>
      split
      · exact .modify rfl .invalidate
      · exact .of_sessions rfl
  | take => exact .modify rfl .invalidate
  | fire h | fired h => exact h.writes

theorem SessionWrite.currentTargetIndex {σ σ' : NavigationSession G} (h : SessionWrite σ σ') :
    σ'.currentTargetIndex = 0 ∨ σ'.currentTargetIndex = σ.currentTargetIndex := by
  cases h with
  | new => exact .inl rfl
  | same | invalidate | arm | install | markDone | clearFeedback => exact .inr rfl

theorem SessionWrite.failureReason {σ σ' : NavigationSession G} (h : SessionWrite σ σ') :
    σ'.failureReason = .none ∨ σ'.failureReason = σ.failureReason := by
  cases h with
  | new | invalidate => exact .inl rfl
  | same | arm | install | markDone | clearFeedback => exact .inr rfl

/-! ### The path of the session -/

/-- The path last followed with waypoints, if no `stop` has returned since. -/
def activePath : List (Event G W) → Option SessionId
  | [] => none
  | .followed p (_ :: _) :: _ => some p
  | .stopReturned :: _ => none
  | _ :: h => activePath h

/-- The events that `activePath` turns on. -/
def Event.marks : Event G W → Bool
  | .followed _ (_ :: _) | .stopReturned => true
  | _ => false

/-- None of them is added. -/
abbrev Unmarked : List (Event G W) → List (Event G W) → Prop := Log.Grows fun e => !e.marks

theorem Unmarked.activePath {h h' : List (Event G W)} (hg : Unmarked h h') :
    activePath h' = activePath h := by
  refine Log.Grows.eq hg fun e h he => ?_
  cases e with
  | followed p ws =>
      cases ws with
      | nil => rfl
      | cons w ws => cases he
  | stopReturned => cases he
  | _ => rfl

theorem unmarked_record (m : Mem G W) {e : Event G W} (he : e.marks = false) :
    Unmarked m.log (m.record e).log :=
  (Log.Grows.refl _).cons (by simp [he])

theorem unmarked_returnFrom (c : Caller) (m : Mem G W) : Unmarked m.log (m.returnFrom c).log := by
  cases c with
  | follow p => exact unmarked_record m rfl
  | dock => exact .refl _
  | undock a => exact (Log.Grows.refl _).cons rfl

theorem ClosureStep.unmarked {alive : SessionId → Bool} {f : Firing} {f' : Option Firing}
    {m m' : Mem G W} (h : ClosureStep alive f m m' f') : Unmarked m.log m'.log := by
  cases h with
  | enterPath | enterFailure => split <;> exact unmarked_record _ rfl
  | enterDock => exact (unmarked_record _ rfl).cons rfl
  | enterUndock | reportFailed => exact unmarked_record _ rfl
  | reset => exact .refl _
  | reportArrived =>
      split
      · exact unmarked_record _ rfl
      · exact .refl _

theorem PathStep.unmarked {alive : SessionId → Bool} {r : PathRequest G W} {m m' : Mem G W}
    {e' : Exec G W} (h : PathStep alive r m m' e') : Unmarked m.log m'.log := by
  have draw : Unmarked m.log (m.drawGoal r).log := (Log.Grows.refl _).cons rfl
  cases h with
  | locked | lost => exact draw
  | lostSilent => exact draw.trans (unmarked_returnFrom _ _)

theorem ExecStep.unmarked {alive : SessionId → Bool} {e e' : Exec G W} {m m' : Mem G W}
    (h : ExecStep alive e m m' e') :
    Unmarked m.log m'.log ∨ ∃ held, e = .stopClear held := by
  cases h with
  | armSession | handOver => exact .inl (unmarked_record _ rfl)
  | executePath h => exact .inl h.unmarked
  | accepted => exact .inl (unmarked_returnFrom _ _)
  | @notAcceptedSilent j i m _ => exact .inl (unmarked_returnFrom _ (m.modify i .markDone))
  | fire h => exact .inl h.unmarked
  | fired h => exact .inl (h.unmarked.trans (unmarked_returnFrom _ _))
  | stopCancel | cancel => split <;> exact .inl (.refl _)
  | stopClear => exact .inr ⟨_, rfl⟩
  | _ => exact .inl (.refl _)

theorem StatusStep.unmarked [DecidableEq G] {alive : SessionId → Bool} {t t' : StatusThread G}
    {m m' : Mem G W} (h : StatusStep alive t m m' t') : Unmarked m.log m'.log := by
  cases h with
  | quiet => exact .refl _
  | silent => split <;> exact unmarked_record _ rfl
  | take => exact unmarked_record _ rfl
  | fire h | fired h => exact h.unmarked

theorem UpdateStep.unmarked {u u' : UpdateThread} {m m' : Mem G W} (h : UpdateStep u m m' u') :
    Unmarked m.log m'.log := by
  cases h with
  | read | drainTake => exact .refl _
  | drainForward | takeFailure | replan => exact unmarked_record _ rfl

/-- Where `stop` has yet to return, `session_` is empty; else it holds the active path's session. -/
structure SessionActive (m : Mem G W) (e : Exec G W) : Prop where
  active : ∀ i, m.session = some i → activePath m.log = some i
  clears : ∀ held, e = .stopClear held → m.session = none

theorem SessionActive.next {m m' : Mem G W} {e e' : Exec G W} (hm : SessionActive m e)
    (h : m'.session = m.session ∨ m'.session = none) (hlog : Unmarked m.log m'.log)
    (hc : ∀ held, e' = .stopClear held → m'.session = none) : SessionActive m' e' where
  active := fun i hi => by
    rcases h with e | e
    · exact hlog.activePath.trans (hm.active i (e ▸ hi))
    · rw [e] at hi
      cases hi
  clears := hc

/-- Another thread than the executor leaves `session_` as it is, or empties it. -/
theorem SessionActive.other {m m' : Mem G W} {e : Exec G W} (hm : SessionActive m e)
    (h : m'.session = m.session ∨ m'.session = none) (hlog : Unmarked m.log m'.log) :
    SessionActive m' e := by
  refine hm.next h hlog fun held he => ?_
  rcases h with e | e
  · exact e.trans (hm.clears held he)
  · exact e

theorem PathStep.not_clears {alive : SessionId → Bool} {r : PathRequest G W} {m m' : Mem G W}
    {e' : Exec G W} (h : PathStep alive r m m' e') (held : Option SessionId) :
    e' ≠ .stopClear held := by
  cases h with
  | locked | lost | lostSilent => exact nofun

theorem ExecStep.sessionActive {alive : SessionId → Bool} {e e' : Exec G W} {m m' : Mem G W}
    (h : ExecStep alive e m m' e') (hm : SessionActive m e) : SessionActive m' e' := by
  have hsession := h.session.imp_right And.left
  have hlog := h.unmarked
  cases h with
  | stopReset => exact hm.next (.inr rfl) (.refl _) fun _ _ => rfl
  | stopClear =>
      have hnone := hm.clears _ rfl
      refine ⟨fun i hi => ?_, nofun⟩
      cases hnone.symm.trans hi
  | executePath h =>
      exact hm.next hsession h.unmarked fun held he => absurd he (h.not_clears held)
  | _ => exact hm.next hsession (hlog.resolve_right (by rintro ⟨_, ⟨⟩⟩)) nofun

theorem CallStep.sessionActive {alive : SessionId → Bool} {c : Call G W} {e' : Exec G W}
    {m m' : Mem G W} (h : CallStep alive c m m' e') (hm : SessionActive m .idle) :
    SessionActive m' e' := by
  have hsession := h.session
  cases h with
  | @followEmpty limits estimator finished net m =>
      refine hm.next (.inl (hsession.resolve_right fun h => by cases h.1).2) ?_ nofun
      cases finished with
      | true => exact ((unmarked_record _ rfl).cons rfl).cons rfl
      | false => exact (unmarked_record _ rfl).cons rfl
  | @follow ws limits estimator finished net m hws hs
  | @followOver ws limits estimator finished net old m hws hs =>
      refine ⟨?_, nofun⟩
      rintro _ ⟨⟩
      cases ws with
      | nil => exact absurd rfl hws
      | cons w ws => rfl
  | noDock =>
      refine hm.next (.inl (hsession.resolve_right fun h => by cases h.1).2) ?_ nofun
      split
      · exact unmarked_record _ rfl
      · exact .refl _
  | @dock ws finished net m m' e' h =>
      have planned : Unmarked m.log (m.record (.dockPlanned m.nextCall ws)).log :=
        unmarked_record _ rfl
      exact hm.next (.inl h.session) (planned.trans h.unmarked) fun held he =>
        absurd he (h.not_clears held)
  | @undock a env ws net m m' e' _ _ _ _ h =>
      have planned : Unmarked m.log (m.record (.undockPlanned a m.nextCall ws)).log :=
        unmarked_record _ rfl
      exact hm.next (.inl h.session) (planned.trans h.unmarked) fun held he =>
        absurd he (h.not_clears held)
  | stop | stopNone | undockReturns | cancelNavigation | cancelNone =>
      exact hm.next (.inl rfl) (unmarked_record _ rfl) nofun

theorem SessionActive.step [DecidableEq G] {s s' : State G W} {a : Action G W}
    (h : navStep s a = some s') (hs : SessionActive s.mem s.exec) :
    SessionActive s'.mem s'.exec := by
  cases navStep_moves h with
  | call c idle fresh => exact (callStep s.alive c s.mem).sessionActive (idle ▸ hs)
  | exec busy => exact (execStep s.alive busy s.mem).sessionActive hs
  | update =>
      have hu := updateStep s.update s.mem
      exact hs.other (.inl hu.session) hu.unmarked
  | recvStatus entries => exact hs
  | status k t at_k =>
      have hk := statusStep s.alive t s.mem
      exact hs.other (hk.session.imp_right And.left) hk.unmarked
  | recvFeedback msg idle => exact hs.other (.inl rfl) (unmarked_record _ rfl)
  | feedback =>
      refine hs.other (.inl (FeedbackThread.session _ _ _)) ?_
      rw [FeedbackThread.log]
      exact .refl _

/-! ### What feedback reports -/

/-- `target` is the waypoint a message for the goal of path `p` named. -/
def TargetReported (h : List (Event G W)) (p : SessionId) (target : Nat) : Prop :=
  ∃ n msg, .feedback n msg ∈ h ∧ PathGoal h p msg.goalId ∧ msg.targetWaypointIndex = target

/-- `reason` is the failure a message for a goal drawn gave. -/
def FailureReported (h : List (Event G W)) (reason : NavFailure) : Prop :=
  ∃ n msg, .feedback n msg ∈ h ∧ (∃ c k, .goal c msg.goalId k ∈ h) ∧
    .ofByte msg.failureReason = reason

theorem TargetReported.mono {h h' : List (Event G W)} (hs : h <:+ h') {p : SessionId}
    {target : Nat} (ht : TargetReported h p target) : TargetReported h' p target :=
  let ⟨n, msg, hm, hp, he⟩ := ht
  ⟨n, msg, hs.subset hm, hp.mono hs, he⟩

theorem FailureReported.mono {h h' : List (Event G W)} (hs : h <:+ h') {reason : NavFailure}
    (hr : FailureReported h reason) : FailureReported h' reason :=
  let ⟨n, msg, hm, ⟨c, k, hg⟩, he⟩ := hr
  ⟨n, msg, hs.subset hm, ⟨c, k, hs.subset hg⟩, he⟩

/-- Where a session's target and failure reason come from. -/
structure Reported (h : List (Event G W)) (i : SessionId) (σ : NavigationSession G) : Prop where
  target : σ.currentTargetIndex = 0 ∨ TargetReported h i σ.currentTargetIndex
  reason : σ.failureReason = .none ∨ FailureReported h σ.failureReason

theorem Reported.mono {h h' : List (Event G W)} (hs : h <:+ h') {i : SessionId}
    {σ : NavigationSession G} (hσ : Reported h i σ) : Reported h' i σ :=
  ⟨hσ.target.imp_right (.mono hs), hσ.reason.imp_right (.mono hs)⟩

theorem Reported.write {h : List (Event G W)} {i : SessionId} {σ σ' : NavigationSession G}
    (hσ : Reported h i σ) (hw : SessionWrite σ σ') : Reported h i σ' where
  target := by
    rcases hw.currentTargetIndex with e | e
    · exact .inl e
    · rw [e]
      exact hσ.target
  reason := by
    rcases hw.failureReason with e | e
    · exact .inl e
    · rw [e]
      exact hσ.reason

/-- What the feedback callback knows of its message, from the snapshot on. -/
def FeedbackThread.Drawn (h : List (Event G W)) : FeedbackThread G → Prop
  | .store _ _ _ msg => ∃ c k, .goal c msg.goalId k ∈ h
  | _ => True

theorem FeedbackThread.Drawn.mono {h h' : List (Event G W)} (hs : h <:+ h') {t : FeedbackThread G}
    (ht : t.Drawn h) : t.Drawn h' := by
  cases t with
  | store i cb n msg =>
      obtain ⟨c, k, hg⟩ := ht
      exact ⟨c, k, hs.subset hg⟩
  | _ => trivial

/-- The snapshot compares the message's goal with the session's. -/
theorem FeedbackThread.drawn_step [DecidableEq G] (alive : SessionId → Bool) {m : Mem G W}
    (hm : MemOk m) (t : FeedbackThread G) : (t.step alive m).2.Drawn m.log := by
  cases t with
  | snapshot i n msg =>
      simp only [FeedbackThread.step]
      split
      · rename_i hg
        obtain ⟨⟨c, hc⟩, -⟩ := (hm.sessions i).goal _ hg
        exact ⟨c, _, hc⟩
      · trivial
  | lock n msg | check i n msg | estimate i p n msg =>
      simp only [FeedbackThread.step]
      split <;> trivial
  | store i cb n msg => cases cb <;> trivial
  | idle | index i p n msg | buffer i p n msg => trivial

/-- The feedback callback writes what its message says. -/
theorem FeedbackThread.reported [DecidableEq G] (alive : SessionId → Bool) {m : Mem G W}
    {t : FeedbackThread G} (ht : t.Ok m.log) (hd : t.Drawn m.log)
    (hm : ∀ i, Reported m.log i (m.sessions i)) (i : SessionId) :
    Reported m.log i ((t.step alive m).1.sessions i) := by
  cases t with
  | idle | lock n msg | check j n msg | snapshot j n msg | estimate j p n msg => exact hm i
  | store j cb n msg =>
      refine Mem.sessions_modify_rec j _ m i ?_ fun _ => hm i
      exact ⟨(hm j).target, .inr ⟨n, msg, ht.1, hd, rfl⟩⟩
  | index j p n msg =>
      refine Mem.sessions_modify_rec p _ m i ?_ fun _ => hm i
      exact ⟨.inr ⟨n, msg, ht.1, ht.2, rfl⟩, (hm p).reason⟩
  | buffer j p n msg =>
      exact Mem.sessions_modify_rec p _ m i ⟨(hm p).target, (hm p).reason⟩ fun _ => hm i

/-- What holds of what an update reads. -/
structure ReadInv (s : State G W) : Prop where
  active : SessionActive s.mem s.exec
  thread : s.feedback.Ok s.mem.log
  drawn : s.feedback.Drawn s.mem.log
  reported : ∀ i, Reported s.mem.log i (s.mem.sessions i)

theorem ReadInv.start : ReadInv (navStart : State G W) where
  active := ⟨nofun, nofun⟩
  thread := trivial
  drawn := trivial
  reported := fun _ => ⟨.inl rfl, .inl rfl⟩

theorem ReadInv.step [DecidableEq G] {s s' : State G W} {a : Action G W}
    (h : navStep s a = some s') (hnav : NavInv s) (hs : ReadInv s) : ReadInv s' := by
  have hm := navStep_moves h
  have hlog := hm.suffix hnav
  have hactive := hs.active.step h
  have reported (hw : Writes s.mem s'.mem) (i : SessionId) :
      Reported s'.mem.log i (s'.mem.sessions i) :=
    ((hs.reported i).mono hlog).write (hw i)
  cases hm with
  | call c idle fresh =>
      exact ⟨hactive, hs.thread.mono hlog, hs.drawn.mono hlog,
        reported (callStep s.alive c s.mem).writes⟩
  | exec busy =>
      exact ⟨hactive, hs.thread.mono hlog, hs.drawn.mono hlog,
        reported (execStep s.alive busy s.mem).writes⟩
  | update =>
      exact ⟨hactive, hs.thread.mono hlog, hs.drawn.mono hlog,
        reported (updateStep s.update s.mem).writes⟩
  | recvStatus entries => exact ⟨hactive, hs.thread, hs.drawn, hs.reported⟩
  | status k t at_k =>
      exact ⟨hactive, hs.thread.mono hlog, hs.drawn.mono hlog,
        reported (statusStep s.alive t s.mem).writes⟩
  | recvFeedback msg idle =>
      exact ⟨hactive, List.mem_cons_self, trivial, reported (.of_sessions rfl)⟩
  | feedback =>
      have hsame := FeedbackThread.log s.alive s.feedback s.mem
      refine ⟨hactive, ?_, ?_, fun i => ?_⟩
      · rw [hsame]
        exact hs.thread.step s.alive hnav.nav.mem
      · rw [hsame]
        exact s.feedback.drawn_step s.alive hnav.nav.mem
      · rw [hsame]
        exact FeedbackThread.reported s.alive hs.thread hs.drawn hs.reported i

/-- In every state, whatever the order of the steps. -/
theorem ReadInv.reach [DecidableEq G] {P : State G W → Action G W → Prop} {s : State G W}
    (h : (navigation G W).Reach P s) : ReadInv s :=
  h.invariant_of (fun _ hs => NavInv.reach hs) .start
    fun _ _ _ _ hstep hnav hs => hs.step hstep hnav

end EgbFleet
