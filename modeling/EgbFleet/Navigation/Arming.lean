import EgbFleet.Navigation.Invariant

/-!
# Navigation — who arms a session

`follow_new_path` gives its session the RMF estimator and the failure callback, `wrapped_estimator`
gives it feedback.  No other step does (`NoArming`): it may take them away.
-/

namespace EgbFleet

variable {G W : Type}

/-- A step that gives no session feedback, an RMF estimator or a failure callback. -/
structure NoArming (m m' : Mem G W) : Prop where
  pending : ∀ {i fb}, (m'.sessions i).pendingFeedback = some fb →
    (m.sessions i).pendingFeedback = some fb
  rmf : ∀ {i}, (m.sessions i).rmfArrivalEstimator = none →
    (m'.sessions i).rmfArrivalEstimator = none
  failure : ∀ {i}, (m.sessions i).failureCallback = none → (m'.sessions i).failureCallback = none
  nextReceipt : m'.nextReceipt = m.nextReceipt

theorem NoArming.of_sessions {m m' : Mem G W} (hσ : m'.sessions = m.sessions)
    (hn : m'.nextReceipt = m.nextReceipt) : NoArming m m' :=
  ⟨fun h => hσ ▸ h, fun h => hσ ▸ h, fun h => hσ ▸ h, hn⟩

theorem NoArming.trans {m₁ m₂ m₃ : Mem G W} (h : NoArming m₁ m₂) (h' : NoArming m₂ m₃) :
    NoArming m₁ m₃ :=
  ⟨fun hp => h.pending (h'.pending hp), fun hr => h'.rmf (h.rmf hr),
    fun hf => h'.failure (h.failure hf), h'.nextReceipt.trans h.nextReceipt⟩

theorem NoArming.modify {m : Mem G W} {i : SessionId}
    {f : NavigationSession G → NavigationSession G}
    (hp : ∀ fb, (f (m.sessions i)).pendingFeedback = some fb →
      (m.sessions i).pendingFeedback = some fb)
    (hr : (m.sessions i).rmfArrivalEstimator = none →
      (f (m.sessions i)).rmfArrivalEstimator = none)
    (hf : (m.sessions i).failureCallback = none → (f (m.sessions i)).failureCallback = none) :
    NoArming m (m.modify i f) where
  pending := fun {j fb} => Mem.sessions_modify_rec i f m j (hp fb) fun _ => id
  rmf := fun {j} => Mem.sessions_modify_rec i f m j hr fun _ => id
  failure := fun {j} => Mem.sessions_modify_rec i f m j hf fun _ => id
  nextReceipt := rfl

theorem NoArming.invalidate (m : Mem G W) (i : SessionId) : NoArming m (m.modify i .invalidate) :=
  .modify nofun (fun _ => rfl) fun _ => rfl

theorem NoArming.returnFrom (c : Caller) (m : Mem G W) : NoArming m (m.returnFrom c) := by
  cases c <;> exact .of_sessions rfl rfl

theorem NoArming.newSession (m : Mem G W) (limits : List ℚ) : NoArming m (m.newSession limits) where
  pending := fun {i _} => Mem.sessions_newSession_rec m limits i nofun fun _ => id
  rmf := fun {i} => Mem.sessions_newSession_rec m limits i (fun _ => rfl) fun _ => id
  failure := fun {i} => Mem.sessions_newSession_rec m limits i (fun _ => rfl) fun _ => id
  nextReceipt := rfl

theorem ClosureStep.noArming {alive : SessionId → Bool} {f : Firing} {f' : Option Firing}
    {m m' : Mem G W} (h : ClosureStep alive f m m' f') : NoArming m m' := by
  have invoked (c : Closure) : NoArming m (m.record (.invoked c)) := .of_sessions rfl rfl
  cases h with
  | enterPath | enterFailure =>
      split
      · exact (invoked _).trans (.invalidate _ _)
      · exact invoked _
  | enterDock | enterUndock | reset | reportFailed => exact .of_sessions rfl rfl
  | reportArrived => split <;> exact .of_sessions rfl rfl

theorem PathStep.noArming {alive : SessionId → Bool} {r : PathRequest G W} {m m' : Mem G W}
    {e' : Exec G W} (h : PathStep alive r m m' e') : NoArming m m' := by
  have draw : NoArming m (m.drawGoal r) := .of_sessions rfl rfl
  cases h with
  | locked | lost => exact draw
  | lostSilent => exact draw.trans (.returnFrom _ _)

theorem ExecStep.noArming {alive : SessionId → Bool} {e e' : Exec G W} {m m' : Mem G W}
    (h : ExecStep alive e m m' e') : NoArming m m' ∨ ∃ f, e = .armSession f := by
  cases h with
  | invalidateOld | stopInvalidate => exact .inl (.invalidate _ _)
  | armSession => exact .inr ⟨_, rfl⟩
  | executePath h => exact .inl h.noArming
  | install | notAccepted => exact .inl (.modify (fun _ => id) id id)
  | accepted => exact .inl (.returnFrom _ _)
  | @notAcceptedSilent j i m hk =>
      have done : NoArming m (m.modify i .markDone) := .modify (fun _ => id) id id
      exact .inl (done.trans (.returnFrom _ _))
  | fire h => exact .inl h.noArming
  | fired h => exact .inl (h.noArming.trans (.returnFrom _ _))
  | stopCancel | cancel =>
      split
      · exact .inl (.invalidate _ _)
      · exact .inl (.of_sessions rfl rfl)
  | _ => exact .inl (.of_sessions rfl rfl)

theorem CallStep.noArming {alive : SessionId → Bool} {c : Call G W} {e' : Exec G W} {m m' : Mem G W}
    (h : CallStep alive c m m' e') : NoArming m m' := by
  cases h with
  | @followEmpty limits est fin net m =>
      refine (NoArming.newSession m limits).trans ?_
      split <;> exact .of_sessions rfl rfl
  | @follow ws limits est fin net m | @followOver ws limits est fin net old m =>
      exact (NoArming.newSession m limits).trans (.of_sessions rfl rfl)
  | noDock => split <;> exact .of_sessions rfl rfl
  | @dock ws fin net m m' e' h =>
      have planned : NoArming m (m.record (.dockPlanned m.nextCall ws)) := .of_sessions rfl rfl
      exact planned.trans h.noArming
  | @undock a env ws net m m' e' _ _ _ _ h =>
      have planned : NoArming m (m.record (.undockPlanned a m.nextCall ws)) := .of_sessions rfl rfl
      exact planned.trans h.noArming
  | _ => exact .of_sessions rfl rfl

theorem UpdateStep.noArming {u u' : UpdateThread} {m m' : Mem G W}
    (h : UpdateStep u m m' u') : NoArming m m' := by
  cases h with
  | drainTake => exact .modify nofun id id
  | read | drainForward | takeFailure | replan => exact .of_sessions rfl rfl

theorem StatusStep.noArming [DecidableEq G] {alive : SessionId → Bool} {t t' : StatusThread G}
    {m m' : Mem G W} (h : StatusStep alive t m m' t') : NoArming m m' := by
  have found {i g st} : NoArming m (m.record (.status i g st)) := .of_sessions rfl rfl
  cases h with
  | quiet => exact .of_sessions rfl rfl
  | silent =>
      split
      · exact found.trans (.invalidate _ _)
      · exact found
  | take => exact found.trans (.invalidate _ _)
  | fire h | fired h => exact h.noArming

/-! ### The failure callback -/

theorem ExecStep.arms {alive : SessionId → Bool} {e e' : Exec G W} {m m' : Mem G W}
    (h : ExecStep alive e m m' e') {i : SessionId}
    (hi : (m'.sessions i).failureCallback ≠ none) :
    (m.sessions i).failureCallback ≠ none ∨ ∃ f, e = .armSession f ∧ f.path = i := by
  rcases h.noArming with hn | ⟨f, rfl⟩
  · exact .inl (mt hn.failure hi)
  · cases h
    by_cases e : i = f.path
    · exact .inr ⟨f, rfl, e.symm⟩
    · rw [Mem.sessions_modify_of_ne _ _ _ e] at hi
      exact .inl hi

/-- A session gets its failure callback from the `follow_new_path` of its path. -/
theorem Moves.arms [DecidableEq G] {s s' : State G W} {a : Action G W} (h : Moves s a s')
    {i : SessionId} (hi : (s'.mem.sessions i).failureCallback ≠ none) :
    (s.mem.sessions i).failureCallback ≠ none ∨
      a = .exec ∧ ∃ f, s.exec = .armSession f ∧ f.path = i := by
  cases h with
  | call c idle fresh => exact .inl (mt (callStep s.alive c s.mem).noArming.failure hi)
  | exec busy => exact ((execStep s.alive busy s.mem).arms hi).imp_right fun h => ⟨rfl, h⟩
  | update => exact .inl (mt (updateStep s.update s.mem).noArming.failure hi)
  | recvStatus | recvFeedback => exact .inl hi
  | status k t at_k => exact .inl (mt (statusStep s.alive t s.mem).noArming.failure hi)
  | feedback =>
      rcases (FeedbackThread.zenohStep s.alive s.feedback s.mem).toTame.sessions i with e | e
      · exact .inl (e.failure ▸ hi)
      · exact absurd e.failure hi

end EgbFleet
