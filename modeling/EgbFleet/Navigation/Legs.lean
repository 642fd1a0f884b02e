import EgbFleet.Navigation.Recorded

/-!
# Navigation — the lanes of a path's goal

`follow_new_path` leaves the speed limits of a path's legs in the path's session, and `execute_path`
has its lanes generated from the session it locks.  In every run, the goal sent for a path has the
path's waypoints, and the lanes of the path's own limits (`sent_of_followed`): nothing writes them
again, and the session locked is the path's.
-/

namespace EgbFleet

variable {G W : Type}

/-- The limits the session of path `p` holds. -/
def Mem.limits (m : Mem G W) (p : SessionId) : List ℚ := (m.sessions p).waypointSpeedLimits

/-- Events other than a goal being sent. -/
def Event.unsent : Event G W → Bool
  | .sent _ _ _ _ => false
  | _ => true

/-- Nothing is sent, and the sessions there are keep their limits. -/
structure Still (m m' : Mem G W) : Prop where
  grows : Log.Grows Event.unsent m.log m'.log
  nextSession : m.nextSession ≤ m'.nextSession
  limits : ∀ p < m.nextSession, m'.limits p = m.limits p

namespace Still

theorem refl (m : Mem G W) : Still m m := ⟨.refl _, le_rfl, fun _ _ => rfl⟩

theorem trans {m₁ m₂ m₃ : Mem G W} (h : Still m₁ m₂) (h' : Still m₂ m₃) : Still m₁ m₃ where
  grows := h.grows.trans h'.grows
  nextSession := h.nextSession.trans h'.nextSession
  limits := fun p hp => (h'.limits p (hp.trans_le h.nextSession)).trans (h.limits p hp)

theorem record (m : Mem G W) {e : Event G W} (he : e.unsent = true) : Still m (m.record e) :=
  ⟨(Log.Grows.refl _).cons he, le_rfl, fun _ _ => rfl⟩

theorem modify (m : Mem G W) (i : SessionId)
    {f : NavigationSession G → NavigationSession G}
    (hf : ∀ σ, (f σ).waypointSpeedLimits = σ.waypointSpeedLimits) : Still m (m.modify i f) where
  grows := .refl _
  nextSession := le_rfl
  limits := fun p _ => by
    simp only [Mem.limits]
    induction p using Mem.sessions_modify_rec (i := i) (f := f) (m := m) with
    | self => exact hf _
    | other => rfl

theorem newSession (m : Mem G W) (limits : List ℚ) : Still m (m.newSession limits) where
  grows := .refl _
  nextSession := Nat.le_succ _
  limits := fun p hp => by
    rw [Mem.limits, Mem.newSession_sessions, Function.update_of_ne hp.ne]
    rfl

theorem returnFrom (m : Mem G W) (c : Caller) : Still m (m.returnFrom c) := by
  cases c with
  | follow p => exact record m rfl
  | dock => exact refl m
  | undock a => exact ⟨(Log.Grows.refl _).cons rfl, le_rfl, fun _ _ => rfl⟩

theorem drawGoal (m : Mem G W) (r : PathRequest G W) : Still m (m.drawGoal r) :=
  ⟨(Log.Grows.refl _).cons rfl, le_rfl, fun _ _ => rfl⟩

end Still

/-! ### Steps that send nothing -/

section

variable {alive : SessionId → Bool} {m m' : Mem G W}

theorem ClosureStep.still {f : Firing} {f' : Option Firing} (h : ClosureStep alive f m m' f') :
    Still m m' := by
  cases h with
  | enterPath | enterFailure =>
      split
      · exact (Still.record m rfl).trans (.modify _ _ fun _ => rfl)
      · exact .record m rfl
  | enterDock => exact (Still.record m rfl).trans (.record _ rfl)
  | enterUndock => exact ⟨(Log.Grows.refl _).cons rfl, le_rfl, fun _ _ => rfl⟩
  | reset => exact ⟨.refl _, le_rfl, fun _ _ => rfl⟩
  | reportArrived =>
      split
      · exact .record m rfl
      · exact .refl m
  | reportFailed => exact ⟨(Log.Grows.refl _).cons rfl, le_rfl, fun _ _ => rfl⟩

theorem PathStep.still {r : PathRequest G W} {e' : Exec G W} (h : PathStep alive r m m' e') :
    Still m m' := by
  cases h with
  | locked | lost => exact .drawGoal m r
  | lostSilent => exact (Still.drawGoal m r).trans (.returnFrom _ _)

theorem ExecStep.still {e e' : Exec G W} (h : ExecStep alive e m m' e')
    (he : ∀ j i, e ≠ .sendGoal j i) : Still m m' := by
  cases h with
  | invalidateOld | install | notAccepted | stopInvalidate => exact .modify _ _ fun _ => rfl
  | armSession =>
      have hflag : Still m ((m.setPendingFailure false).record .unflagged) :=
        ⟨(Log.Grows.refl _).cons rfl, le_rfl, fun _ _ => rfl⟩
      exact hflag.trans (.modify _ _ fun _ => rfl)
  | setSession | stopReset => exact ⟨.refl _, le_rfl, fun _ _ => rfl⟩
  | executePath h => exact h.still
  | handOver => exact absurd rfl (he _ _)
  | accepted => exact .returnFrom _ _
  | refused => exact .refl _
  | @notAcceptedSilent j i =>
      have hdone : Still m (m.modify i .markDone) := .modify _ _ fun _ => rfl
      exact hdone.trans (.returnFrom _ _)
  | fire h => exact h.still
  | fired h => exact h.still.trans (.returnFrom _ _)
  | stopCancel | cancel =>
      split
      · exact .modify _ _ fun _ => rfl
      · exact .refl _
  | stopRead | stopReadNone => exact .refl _
  | stopClear => exact ⟨((Log.Grows.refl _).cons rfl).cons rfl, le_rfl, fun _ _ => rfl⟩

theorem CallStep.still {c : Call G W} {e' : Exec G W} (h : CallStep alive c m m' e') :
    Still m m' := by
  cases h with
  | @followEmpty limits _ finished _ _ =>
      refine (Still.newSession m limits).trans ?_
      have hfollowed : Still (m.newSession limits)
          ((m.newSession limits).record (.followed m.nextSession [])) := .record _ rfl
      cases finished with
      | true => exact (hfollowed.trans (.record _ rfl)).trans (.record _ rfl)
      | false => exact hfollowed.trans (.record _ rfl)
  | @follow ws limits | @followOver ws limits =>
      refine (Still.newSession m limits).trans ?_
      exact ⟨(Log.Grows.refl _).cons rfl, le_rfl, fun _ _ => rfl⟩
  | stop | stopNone | cancelNavigation | cancelNone => exact .record m rfl
  | noDock =>
      split
      · exact .record m rfl
      · exact .refl m
  | dock h => exact (Still.record m rfl).trans h.still
  | undock _ _ _ _ h => exact (Still.record m rfl).trans h.still
  | undockReturns => exact ⟨(Log.Grows.refl _).cons rfl, le_rfl, fun _ _ => rfl⟩

theorem UpdateStep.still {u u' : UpdateThread} (h : UpdateStep u m m' u') : Still m m' := by
  cases h with
  | read => exact .refl m
  | drainTake => exact .modify _ _ fun _ => rfl
  | drainForward | replan => exact .record m rfl
  | takeFailure => exact ⟨(Log.Grows.refl _).cons rfl, le_rfl, fun _ _ => rfl⟩

theorem StatusStep.still [DecidableEq G] {t t' : StatusThread G}
    (h : StatusStep alive t m m' t') : Still m m' := by
  cases h with
  | quiet => exact .refl m
  | silent =>
      split
      · exact (Still.record m rfl).trans (.modify _ _ fun _ => rfl)
      · exact .record m rfl
  | take => exact (Still.record m rfl).trans (.modify _ _ fun _ => rfl)
  | fire h | fired h => exact h.still

theorem FeedbackThread.still [DecidableEq G] (alive : SessionId → Bool) (t : FeedbackThread G)
    (m : Mem G W) : Still m (t.step alive m).1 := by
  cases t with
  | store | index | buffer => exact .modify _ _ fun _ => rfl
  | idle | lock | check | snapshot | estimate => exact .refl m

end

/-! ### The goals sent -/

/-- The waypoints are those of path `p`, and the lanes have its limits. -/
def LegsOf (m : Mem G W) (p : SessionId) (ws : List W) (lanes : List Lane) : Prop :=
  .followed p ws ∈ m.log ∧ lanes = generateLanes ws.length (m.limits p)

/-- A goal sent was drawn, and if for a path, it has that path's legs. -/
structure SentLegs (m : Mem G W) : Prop where
  goal : ∀ {c g ws lanes}, .sent c g ws lanes ∈ m.log →
    ∃ k, .goal c g k ∈ m.log ∧ ∀ p finished, k = some ⟨c, .path p finished⟩ → LegsOf m p ws lanes

/-- The executor's job has the legs of its path. -/
def ExecLegs (m : Mem G W) : Exec G W → Prop
  | .invalidateOld f _ | .armSession f | .setSession f | .executePath f =>
      .followed f.path f.waypoints ∈ m.log
  | .install j _ | .sendGoal j _ => ∀ p finished, j.request.callback = some (.path p finished) →
      LegsOf m p j.request.waypoints j.lanes
  | _ => True

section

variable {m m' : Mem G W}

theorem LegsOf.still (hn : Named m) (h : Still m m') {p : SessionId} {ws : List W}
    {lanes : List Lane} (hp : LegsOf m p ws lanes) : LegsOf m' p ws lanes := by
  obtain ⟨hws, rfl⟩ := hp
  refine ⟨h.grows.suffix.subset hws, ?_⟩
  rw [h.limits p (hn.lt hws)]

theorem SentLegs.still (hs : SentLegs m) (hn : Named m) (h : Still m m') : SentLegs m' := by
  refine ⟨fun {c g ws lanes} hsent => ?_⟩
  obtain ⟨k, hgoal, hlegs⟩ := hs.goal (h.grows.back rfl hsent)
  exact ⟨k, h.grows.suffix.subset hgoal, fun p finished hk => (hlegs p finished hk).still hn h⟩

theorem ExecLegs.still {e : Exec G W} (he : ExecLegs m e) (hn : Named m) (h : Still m m') :
    ExecLegs m' e := by
  cases e with
  | invalidateOld f old => exact h.grows.suffix.subset he
  | armSession f | setSession f | executePath f => exact h.grows.suffix.subset he
  | install j i | sendGoal j i => exact fun p finished hk => (he p finished hk).still hn h
  | _ => trivial

/-- A job that is for no path need not have the legs of one. -/
theorem PathStep.legs {alive : SessionId → Bool} {r : PathRequest G W} {e' : Exec G W}
    (h : PathStep alive r m m' e') (hr : ∀ p finished, r.callback ≠ some (.path p finished)) :
    ExecLegs m' e' := by
  cases h with
  | locked => exact fun p finished hk => absurd hk (hr p finished)
  | lost | lostSilent => trivial

theorem CallStep.legs {alive : SessionId → Bool} {c : Call G W} {e' : Exec G W}
    (h : CallStep alive c m m' e') : ExecLegs m' e' := by
  cases h with
  | follow | followOver => exact List.mem_cons_self
  | @dock _ finished _ _ _ _ h => exact h.legs fun p fin => by cases finished <;> exact nofun
  | undock _ _ _ _ h => exact h.legs nofun
  | _ => trivial

/-- `execute_path` generates a path's lanes from the session of the path. -/
theorem NavOk.executePath_legs {alive : SessionId → Bool} {f : FollowJob G W}
    (hnav : NavOk m (.executePath f)) (halive : alive f.path = true)
    (he : .followed f.path f.waypoints ∈ m.log) :
    ExecLegs (executePath alive f.request m).1 (executePath alive f.request m).2 := by
  have hlock : m.lock alive = some f.path := Mem.lock_eq_some.mpr ⟨hnav.exec.2.2, halive⟩
  simp only [executePath, hlock, ExecLegs]
  rintro p finished ⟨⟩
  exact ⟨List.mem_cons_of_mem _ he, rfl⟩

/-- The goal handed over is the job's. -/
theorem SentLegs.send (hs : SentLegs m) {j : PathJob G W} {i : SessionId}
    (hj : JobOk m.log j (some i)) (he : ExecLegs m (.sendGoal j i)) :
    SentLegs (m.record (.sent j.call j.request.net.goalId j.request.waypoints j.lanes)) := by
  refine ⟨fun {c g ws lanes} hsent => ?_⟩
  rcases List.mem_cons.mp hsent with e | hsent
  · cases e
    refine ⟨j.completion, List.mem_cons_of_mem _ hj.goal, fun p finished hk => ?_⟩
    obtain ⟨kind, hkind, hmk⟩ := Option.map_eq_some_iff.mp hk
    cases hmk
    obtain ⟨hws, hlanes⟩ := he p finished hkind
    exact ⟨List.mem_cons_of_mem _ hws, hlanes⟩
  · obtain ⟨k, hgoal, hlegs⟩ := hs.goal hsent
    refine ⟨k, List.mem_cons_of_mem _ hgoal, fun p finished hk => ?_⟩
    obtain ⟨hws, hlanes⟩ := hlegs p finished hk
    exact ⟨List.mem_cons_of_mem _ hws, hlanes⟩

end

/-- A step other than the two that generate and hand over the lanes. -/
theorem ExecStep.legs {alive : SessionId → Bool} {e e' : Exec G W} {m m' : Mem G W}
    (h : ExecStep alive e m m' e') (hn : Named m) (hpath : ∀ f, e ≠ .executePath f)
    (hsend : ∀ j i, e ≠ .sendGoal j i) (he : ExecLegs m e) : ExecLegs m' e' := by
  have hstill := h.still hsend
  cases h with
  | invalidateOld | armSession | setSession => exact hstill.grows.suffix.subset he
  | executePath => exact absurd rfl (hpath _)
  | install => exact fun p finished hk => (he p finished hk).still hn hstill
  | handOver => exact absurd rfl (hsend _ _)
  | _ => trivial

/-- The executor's step. -/
theorem NavOk.step_legs {alive : SessionId → Bool} {e : Exec G W} {m : Mem G W} (hnav : NavOk m e)
    (hbusy : e ≠ .idle) (halive : ∀ i, e.holds i = true → alive i = true) (hn : Named m)
    (hs : SentLegs m) (he : ExecLegs m e) :
    SentLegs (e.step alive m).1 ∧ ExecLegs (e.step alive m).1 (e.step alive m).2 := by
  by_cases hsend : ∃ j i, e = .sendGoal j i
  · -- the goal is handed over
    obtain ⟨j, i, rfl⟩ := hsend
    exact ⟨hs.send hnav.exec.1 he, trivial⟩
  · have hstep := execStep alive hbusy m
    have hsend' : ∀ j i, e ≠ .sendGoal j i := fun j i h => hsend ⟨j, i, h⟩
    refine ⟨hs.still hn (hstep.still hsend'), ?_⟩
    by_cases hpath : ∃ f, e = .executePath f
    · -- its lanes are generated
      obtain ⟨f, rfl⟩ := hpath
      exact hnav.executePath_legs (halive f.path (beq_self_eq_true _)) he
    · exact hstep.legs hn (fun f h => hpath ⟨f, h⟩) hsend' he

/-! ### Every run -/

/-- What holds in every state reached. -/
structure LegsInv (s : State G W) : Prop where
  nav : NavInv s
  named : Named s.mem
  sent : SentLegs s.mem
  exec : ExecLegs s.mem s.exec

theorem LegsInv.start : LegsInv (navStart : State G W) where
  nav := .start
  named := ⟨by simp [navStart, Mem.start], by simp [navStart, Mem.start]⟩
  sent := ⟨by simp [navStart, Mem.start]⟩
  exec := trivial

theorem Moves.still [DecidableEq G] {s s' : State G W} {a : Action G W} (h : Moves s a s')
    (he : ∀ j i, s.exec = .sendGoal j i → a ≠ .exec) : Still s.mem s'.mem := by
  cases h with
  | call c => exact (callStep s.alive c s.mem).still
  | exec busy => exact (execStep s.alive busy s.mem).still fun j i hj => he j i hj rfl
  | update => exact (updateStep s.update s.mem).still
  | recvStatus => exact .refl _
  | status k t => exact (statusStep s.alive t s.mem).still
  | recvFeedback => exact ⟨(Log.Grows.refl _).cons rfl, le_rfl, fun _ _ => rfl⟩
  | feedback => exact s.feedback.still s.alive s.mem

theorem LegsInv.step [DecidableEq G] {s s' : State G W} {a : Action G W} (hs : LegsInv s)
    (h : navStep s a = some s') : LegsInv s' := by
  have hm := navStep_moves h
  obtain ⟨hsent, hexec⟩ : SentLegs s'.mem ∧ ExecLegs s'.mem s'.exec := by
    cases hm with
    | call c =>
        have hc := callStep s.alive c s.mem
        exact ⟨hs.sent.still hs.named hc.still, hc.legs⟩
    | exec busy =>
        exact hs.nav.nav.step_legs busy (fun _ => Exec.alive) hs.named hs.sent hs.exec
    | update =>
        have hu := (updateStep s.update s.mem).still
        exact ⟨hs.sent.still hs.named hu, hs.exec.still hs.named hu⟩
    | recvStatus => exact ⟨hs.sent, hs.exec⟩
    | status k t =>
        have ht := (statusStep s.alive t s.mem).still
        exact ⟨hs.sent.still hs.named ht, hs.exec.still hs.named ht⟩
    | recvFeedback msg =>
        have hr : Still s.mem (s.mem.newReceipt.record (.feedback s.mem.nextReceipt msg)) :=
          ⟨(Log.Grows.refl _).cons rfl, le_rfl, fun _ _ => rfl⟩
        exact ⟨hs.sent.still hs.named hr, hs.exec.still hs.named hr⟩
    | feedback =>
        have hf := s.feedback.still s.alive s.mem
        exact ⟨hs.sent.still hs.named hf, hs.exec.still hs.named hf⟩
  exact ⟨hs.nav.step h, hs.named.step hm hs.nav, hsent, hexec⟩

theorem LegsInv.reach [DecidableEq G] {P : State G W → Action G W → Prop} {s : State G W}
    (h : (navigation G W).Reach P s) : LegsInv s :=
  h.invariant .start fun _ _ _ _ hstep hs => hs.step hstep

/-- No step changes the limits of a path there is. -/
theorem Moves.limits [DecidableEq G] {s s' : State G W} {a : Action G W} (h : Moves s a s') :
    s.mem.nextSession ≤ s'.mem.nextSession ∧
      ∀ p < s.mem.nextSession, s'.mem.limits p = s.mem.limits p := by
  by_cases hsend : ∃ j i, s.exec = .sendGoal j i ∧ a = .exec
  · obtain ⟨j, i, he, rfl⟩ := hsend
    cases h with
    | exec =>
        simp [he, Exec.step, Mem.limits]
  · have hstill := h.still fun j i he ha => hsend ⟨j, i, he, ha⟩
    exact ⟨hstill.nextSession, hstill.limits⟩

/-- What the call of `follow_new_path` for path `p` leaves for good. -/
structure FollowedBy (p : SessionId) (ws : List W) (limits : List ℚ) (s : State G W) : Prop where
  inv : LegsInv s
  followed : .followed p ws ∈ s.mem.log
  limits : s.mem.limits p = limits

theorem CallStep.followed {alive : SessionId → Bool} {ws : List W} {limits : List ℚ}
    {estimator finished : Bool} {net : Network G} {m m' : Mem G W} {e' : Exec G W}
    (h : CallStep alive (.followNewPath ws limits estimator finished net) m m' e') :
    .followed m.nextSession ws ∈ m'.log ∧ m'.limits m.nextSession = limits := by
  cases h with
  | followEmpty => cases finished <;> simp [Mem.limits]
  | follow | followOver => simp [Mem.limits]

theorem FollowedBy.call [DecidableEq G] {s s' : State G W} {ws : List W} {limits : List ℚ}
    {estimator finished : Bool} {net : Network G} (hs : LegsInv s)
    (h : navStep s (.call (.followNewPath ws limits estimator finished net)) = some s') :
    FollowedBy s.mem.nextSession ws limits s' := by
  have hinv := hs.step h
  cases navStep_moves h with
  | call =>
      obtain ⟨hws, hlimits⟩ := (callStep s.alive _ s.mem).followed
      exact ⟨hinv, hws, hlimits⟩

theorem FollowedBy.step [DecidableEq G] {p : SessionId} {ws : List W} {limits : List ℚ}
    {s s' : State G W} {a : Action G W} (hs : FollowedBy p ws limits s)
    (h : navStep s a = some s') : FollowedBy p ws limits s' where
  inv := hs.inv.step h
  followed := ((navStep_moves h).suffix hs.inv.nav).subset hs.followed
  limits := ((navStep_moves h).limits.2 p (hs.inv.named.lt hs.followed)).trans hs.limits

/-- **The legs of a path's goal.**  The goal sent for a path has the waypoints, and lanes of the
limits, that `follow_new_path` was given. -/
theorem sent_of_followed [DecidableEq G] {s s₁ t : State G W} {as : List (Action G W)}
    {ws ws' : List W} {limits : List ℚ} {estimator finished : Bool} {net : Network G}
    (hs : (navigation G W).Reach (fun _ _ => True) s)
    (hcall : (navigation G W).step s (.call (.followNewPath ws limits estimator finished net)) =
      some s₁)
    (hrun : (navigation G W).Run (fun _ _ => True) s₁ as t) {c : CallId} {g : G}
    {lanes : List Lane} (hsent : .sent c g ws' lanes ∈ t.mem.log)
    (hgoal : PathGoal t.mem.log s.mem.nextSession g) :
    ws' = ws ∧ lanes = generateLanes ws.length limits := by
  have ht : FollowedBy s.mem.nextSession ws limits t :=
    hrun.preserves (fun _ _ _ _ hstep hu => hu.step hstep) (.call (.reach hs) hcall)
  obtain ⟨k, hdrawn, hlegs⟩ := ht.inv.sent.goal hsent
  obtain ⟨c', fin, hpath⟩ := hgoal
  obtain ⟨rfl, rfl⟩ := ht.inv.nav.nav.mem.goals.goal_inj hdrawn hpath
  obtain ⟨hws, rfl⟩ := hlegs _ fin rfl
  obtain rfl := ht.inv.named.unique hws ht.followed
  exact ⟨rfl, by rw [ht.limits]⟩

end EgbFleet
