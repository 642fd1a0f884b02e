import EgbFleet.Navigation.Invariant
import EgbFleet.Support.Logs

/-!
# Navigation — the life of an undock action

What the steps of the machine are to one undock action: aside, the call that plans its path, the
return of `execute_path`, a call of its callback, or a return of `update_action` (`UndockMove`).
`Moves.undock` inverts every step into one of these.

`UndockOk.reach`: in every run, an action whose `execute_path` is running is still planning, one
that has drawn a goal is no longer planning otherwise, one whose callback has been called knows it,
and one that has returned `FAILED` has failed.
-/

namespace EgbFleet

variable {G W : Type}

/-! ### What concerns an action -/

/-- The events that concern action `a`: its callback is given to `execute_path` or called, or its
`update_action` returns. -/
def Event.about (a : ActionId) : Event G W → Bool
  | .goal _ _ (some ⟨_, .undock b⟩) | .invoked (.completion ⟨_, .undock b⟩)
  | .actionReturned b _ => b == a
  | _ => false

/-- No event that concerns action `a` is added. -/
abbrev Apart (a : ActionId) : List (Event G W) → List (Event G W) → Prop :=
  Log.Grows fun e => !e.about a

def Caller.action? : Caller → Option ActionId
  | .undock a => some a
  | .follow _ | .dock => none

/-- The action whose `execute_path` is running. -/
def Exec.undocks? : Exec G W → Option ActionId
  | .install j _ | .sendGoal j _ | .awaitReply j _ | .notAccepted j _ | .fire j _ _ =>
      j.request.caller.action?
  | _ => none

/-- An action's callback is passed by the action itself. -/
theorem PathRequest.Made.action {r : PathRequest G W} (h : r.Made) {a : ActionId}
    (hk : r.callback = some (.undock a)) : r.caller.action? = some a := by
  cases h with
  | follow f => cases hk
  | dock ws finished net => cases finished <;> cases hk
  | undock b ws net => cases hk; rfl

theorem JobOk.action {h : List (Event G W)} {j : PathJob G W} {i : Option SessionId}
    (hj : JobOk h j i) {k : Completion} {a : ActionId} (hk : j.completion = some k)
    (hkind : k.kind = .undock a) : j.request.caller.action? = some a := by
  obtain ⟨kind, hcb, rfl⟩ := Option.map_eq_some_iff.mp hk
  exact hj.made.action (hkind ▸ hcb)

theorem apart_record {a : ActionId} (m : Mem G W) {e : Event G W} (he : e.about a = false) :
    Apart a m.log (m.record e).log :=
  (Log.Grows.refl _).cons (by simp [he])

/-- `m'` differs from `m` in nothing that concerns action `a`. -/
def Aside (a : ActionId) (m m' : Mem G W) : Prop :=
  Apart a m.log m'.log ∧ m'.undock a = m.undock a

theorem Aside.of_log {a : ActionId} {m m' : Mem G W} (hl : m'.log = m.log)
    (hu : m'.undock = m.undock) : Aside a m m' :=
  ⟨hl ▸ .refl _, by rw [hu]⟩

theorem Aside.record {a : ActionId} (m : Mem G W) {e : Event G W} (he : e.about a = false) :
    Aside a m (m.record e) :=
  ⟨apart_record m he, rfl⟩

theorem Aside.trans {a : ActionId} {m₁ m₂ m₃ : Mem G W} (h : Aside a m₁ m₂) (h' : Aside a m₂ m₃) :
    Aside a m₁ m₃ :=
  ⟨h.1.trans h'.1, h'.2.trans h.2⟩

/-- What another action does is aside. -/
theorem Aside.setUndock {a b : ActionId} (hb : b ≠ a) (m : Mem G W) (u : UndockAction) :
    Aside a m (m.setUndock b u) :=
  ⟨.refl _, by rw [Mem.setUndock_undock, Function.update_of_ne hb.symm]⟩

theorem Aside.returnFrom {a : ActionId} {c : Caller} (hc : c.action? ≠ some a) (m : Mem G W) :
    Aside a m (m.returnFrom c) := by
  cases c with
  | follow p => exact .record m rfl
  | dock => exact .of_log rfl rfl
  | undock b =>
      have hb : b ≠ a := fun e => hc (congrArg some e)
      exact (Aside.setUndock hb m _).trans (.record _ (beq_eq_false_iff_ne.mpr hb))

/-- A closure concerns the action whose callback it is, and no other. -/
theorem ClosureStep.undock {alive : SessionId → Bool} {f : Firing} {f' : Option Firing}
    {m m' : Mem G W} (h : ClosureStep alive f m m' f') (a : ActionId) :
    Aside a m m' ∨ ∃ k, f = .enter (.completion k) ∧ k.kind = .undock a ∧ f' = none ∧
      m'.log = .invoked (.completion k) :: m.log ∧
      m'.undock a = { m.undock a with navCompleted := true } := by
  cases h with
  | @enterPath k p fin m hk =>
      obtain ⟨c, kind⟩ := k
      cases hk
      refine .inl ?_
      split
      · exact (Aside.record m rfl).trans (.of_log rfl rfl)
      · exact .record m rfl
  | @enterDock k m hk =>
      obtain ⟨c, kind⟩ := k
      cases hk
      exact .inl ((Aside.record m rfl).trans (.record _ rfl))
  | @enterUndock k b m hk =>
      obtain ⟨c, kind⟩ := k
      cases hk
      by_cases e : b = a
      · subst e
        exact .inr ⟨_, rfl, rfl, rfl, rfl, by simp⟩
      · have h₁ : Aside a m (m.record (.invoked (.completion ⟨c, .undock b⟩))) :=
          .record m (beq_eq_false_iff_ne.mpr e)
        exact .inl (h₁.trans (.setUndock e _ _))
  | @enterFailure p m =>
      refine .inl ?_
      split
      · exact (Aside.record m rfl).trans (.of_log rfl rfl)
      · exact .record m rfl
  | reset => exact .inl (.of_log rfl rfl)
  | @reportArrived p fin m =>
      refine .inl ?_
      split
      · exact .record m rfl
      · exact .of_log rfl rfl
  | @reportFailed p m =>
      have h₁ : Aside a m (m.setPendingFailure true) := .of_log rfl rfl
      exact .inl (h₁.trans (.record _ rfl))

/-- `execute_path` for somebody else. -/
theorem PathStep.aside {alive : SessionId → Bool} {r : PathRequest G W} {m m' : Mem G W}
    {e' : Exec G W} (h : PathStep alive r m m' e') {a : ActionId}
    (hr : r.caller.action? ≠ some a) (hk : r.callback ≠ some (.undock a)) :
    Aside a m m' ∧ e'.undocks? ≠ some a := by
  have draw : Aside a m (m.drawGoal r) := by
    refine ⟨(Log.Grows.refl _).cons ?_, rfl⟩
    rcases hcb : r.callback with _ | _ | _ | b
    · rfl
    · rfl
    · rfl
    · have hb : b ≠ a := fun e => hk (hcb.trans (by rw [e]))
      simpa [Event.about] using hb
  cases h with
  | locked | lost => exact ⟨draw, hr⟩
  | lostSilent => exact ⟨draw.trans (.returnFrom hr _), nofun⟩

/-- `update_action`, where it starts no navigation: what becomes of the action's state, and what
is returned. -/
inductive UndockReturns (env : UndockEnv W) (u : UndockAction) :
    UndockState → RobotActionState → Prop where
  | gaveUp (h : u.state = .planning) : UndockReturns env u .failed .failed
  -- no navigation interface: nothing is passed to `execute_path`
  | started (h : u.state = .planning) : UndockReturns env u .navigating .inProgress
  | arrived (h : u.state = .navigating) (hn : u.navCompleted = true) :
      UndockReturns env u .completed .completed
  | timedOut (h : u.state = .navigating) (hn : u.navCompleted = false)
      (ht : env.timedOut = true) : UndockReturns env u .failed .failed
  | waits (h : u.state = .navigating) : UndockReturns env u .navigating .inProgress
  | completed (h : u.state = .completed) : UndockReturns env u .completed .completed
  | failed (h : u.state = .failed) : UndockReturns env u .failed .failed

theorem startUpdateAction_cases (alive : SessionId → Bool) (a : ActionId) (env : UndockEnv W)
    (net : Network G) (m : Mem G W) :
    (∃ ws, (m.undock a).state = .planning ∧
        PathStep alive ⟨.undock a, ws, some (.undock a), none, net⟩
          (m.record (.undockPlanned a m.nextCall ws)) (startUpdateAction alive a env net m).1
          (startUpdateAction alive a env net m).2) ∨
      ∃ state returned, UndockReturns env (m.undock a) state returned ∧
        startUpdateAction alive a env net m =
          ((m.setUndock a { m.undock a with state }).record (.actionReturned a returned),
            .idle) := by
  unfold startUpdateAction
  split
  · rename_i ha
    split
    · exact .inr ⟨_, _, .gaveUp ha, rfl⟩
    · split
      · exact .inr ⟨_, _, .gaveUp ha, rfl⟩
      · rename_i ws _
        split
        · exact .inl ⟨ws, ha, pathStep _ _ _⟩
        · exact .inr ⟨_, _, .started ha, rfl⟩
  · rename_i ha
    split
    · rename_i hn
      exact .inr ⟨_, _, .arrived ha hn, rfl⟩
    · rename_i hn
      split
      · rename_i ht
        exact .inr ⟨_, _, .timedOut ha (Bool.eq_false_iff.mpr hn) ht, rfl⟩
      · exact .inr ⟨_, _, .waits ha, rfl⟩
  · rename_i ha
    exact .inr ⟨_, _, .completed ha, rfl⟩
  · rename_i ha
    exact .inr ⟨_, _, .failed ha, rfl⟩

/-- On the way from `m` to `m'` the callback of action `a` is not called without setting
`nav_completed_`, and the action does not fail. -/
structure Traced (a : ActionId) (m m' : Mem G W) : Prop where
  nav : (m.undock a).navCompleted = true → (m'.undock a).navCompleted = true
  invoked : ∀ k, .invoked (.completion k) ∈ m'.log → k.kind = .undock a →
    (m'.undock a).navCompleted = true ∨ .invoked (.completion k) ∈ m.log
  returned : .actionReturned a .failed ∈ m'.log → .actionReturned a .failed ∈ m.log

theorem about_invoked {k : Completion} {a : ActionId} (hk : k.kind = .undock a) :
    (.invoked (.completion k) : Event G W).about a = true := by
  obtain ⟨c, kind⟩ := k
  cases hk
  simp [Event.about]

theorem Apart.back {a : ActionId} {h h' : List (Event G W)} (hg : Apart a h h') {e : Event G W}
    (he : e.about a = true) (hm : e ∈ h') : e ∈ h :=
  Log.Grows.back hg (by simp [he]) hm

theorem Aside.traced {a : ActionId} {m m' : Mem G W} (h : Aside a m m') : Traced a m m' where
  nav := fun hn => by rw [h.2]; exact hn
  invoked := fun k hm hk => .inr (Apart.back h.1 (about_invoked hk) hm)
  returned := Apart.back h.1 (by simp [Event.about])

/-- An action's callback is called. -/
theorem Traced.of_invoked {a : ActionId} {m m' : Mem G W} {k : Completion}
    (hl : m'.log = .invoked (.completion k) :: m.log)
    (hu : m'.undock a = { m.undock a with navCompleted := true }) : Traced a m m' where
  nav := fun _ => by rw [hu]
  invoked := fun _ _ _ => .inl (by rw [hu])
  returned := fun hm => by simpa [hl] using hm

/-- Action `a`'s `execute_path` returns. -/
theorem Traced.returnFrom {a : ActionId} {c : Caller} (hc : c.action? = some a) {m m₁ : Mem G W}
    (h : Traced a m m₁) :
    ((m₁.returnFrom c).undock a).state = .navigating ∧ Traced a m (m₁.returnFrom c) := by
  cases c with
  | follow p | dock => cases hc
  | undock b =>
      obtain rfl : b = a := Option.some.inj hc
      have hu : ((m₁.returnFrom (.undock b)).undock b) =
          { m₁.undock b with state := .navigating } := by simp [Mem.returnFrom]
      refine ⟨by rw [hu], fun hn => ?_, fun k hm hk => ?_, fun hm => ?_⟩
      · rw [hu]; exact h.nav hn
      · rw [hu]
        exact h.invoked k ((List.mem_cons.mp hm).resolve_left nofun) hk
      · exact h.returned ((List.mem_cons.mp hm).resolve_left nofun)

/-- The executor's step, as far as it concerns action `a`. -/
theorem ExecStep.undock {alive : SessionId → Bool} {e e' : Exec G W} {m m' : Mem G W}
    (h : ExecStep alive e m m' e') (he : ExecOk m e) (a : ActionId) :
    (Aside a m m' ∧ (e'.undocks? = some a ↔ e.undocks? = some a)) ∨
      e.undocks? = some a ∧ e' = .idle ∧ (m'.undock a).state = .navigating ∧ Traced a m m' := by
  have returns {m₁ : Mem G W} {c : Caller} (h₁ : Aside a m m₁) (hc : e.undocks? = c.action?) :
      (Aside a m (m₁.returnFrom c) ∧ ((Exec.idle : Exec G W).undocks? = some a ↔
        e.undocks? = some a)) ∨ e.undocks? = some a ∧ (Exec.idle : Exec G W) = .idle ∧
        ((m₁.returnFrom c).undock a).state = .navigating ∧ Traced a m (m₁.returnFrom c) := by
    rw [hc]
    by_cases hca : c.action? = some a
    · exact .inr ⟨hca, rfl, h₁.traced.returnFrom hca⟩
    · exact .inl ⟨h₁.trans (.returnFrom hca _), iff_of_false nofun hca⟩
  have own {j : PathJob G W} {i : Option SessionId} {f : Firing} {k : Completion}
      (he : ExecOk m (.fire j i f)) (hf : f = .enter (.completion k)) (hk : k.kind = .undock a) :
      j.request.caller.action? = some a := by
    obtain ⟨hj, k', hk', hof⟩ := he
    subst hf
    cases hof
    exact hj.action hk' hk
  cases h with
  | invalidateOld | setSession | stopInvalidate | stopReset =>
      exact .inl ⟨.of_log rfl rfl, Iff.rfl⟩
  | install | notAccepted => exact .inl ⟨.of_log rfl rfl, Iff.rfl⟩
  | armSession =>
      have h₁ : Aside a m (m.setPendingFailure false) := .of_log rfl rfl
      exact .inl ⟨(h₁.trans (.record _ rfl)).trans (.of_log rfl rfl), Iff.rfl⟩
  | executePath h =>
      have hp := h.aside (a := a) nofun nofun
      exact .inl ⟨hp.1, iff_of_false hp.2 nofun⟩
  | handOver => exact .inl ⟨.record m rfl, Iff.rfl⟩
  | accepted => exact returns (.of_log rfl rfl) rfl
  | refused => exact .inl ⟨.of_log rfl rfl, Iff.rfl⟩
  | @notAcceptedSilent j i m => exact returns (.of_log rfl rfl) rfl
  | fire h =>
      rcases h.undock a with h₁ | ⟨k, -, -, hnone, -⟩
      · exact .inl ⟨h₁, Iff.rfl⟩
      · cases hnone
  | fired h =>
      rcases h.undock a with h₁ | ⟨k, hf, hk, -, hl, hu⟩
      · exact returns h₁ rfl
      · have hc := own he hf hk
        exact .inr ⟨hc, rfl, (Traced.of_invoked hl hu).returnFrom hc⟩
  | stopCancel | cancel =>
      refine .inl ⟨?_, Iff.rfl⟩
      split <;> exact .of_log rfl rfl
  | stopClear =>
      have h₁ : Aside a m (m.setPendingFailure false) := .of_log rfl rfl
      exact .inl ⟨(h₁.trans (.record _ rfl)).trans (.record _ rfl), Iff.rfl⟩
  | stopRead | stopReadNone => exact .inl ⟨.of_log rfl rfl, Iff.rfl⟩

/-- What a step is to action `a`. -/
inductive UndockMove (a : ActionId) (s s' : State G W) : Action G W → Prop where
  | aside {act : Action G W} (mem : Aside a s.mem s'.mem)
      (runs : s'.exec.undocks? = some a ↔ s.exec.undocks? = some a) : UndockMove a s s' act
  /-- `handle_planning` calls `execute_path`. -/
  | plans {act : Action G W} (state : (s.mem.undock a).state = .planning)
      (still : (s'.mem.undock a).state = .planning) (runs : s'.exec.undocks? = some a)
      (traced : Traced a s.mem s'.mem) : UndockMove a s s' act
  /-- `execute_path` returns to `handle_planning`; it may have called the callback itself. -/
  | navigates {act : Action G W} (running : s.exec.undocks? = some a) (idle : s'.exec = .idle)
      (state : (s'.mem.undock a).state = .navigating) (traced : Traced a s.mem s'.mem) :
      UndockMove a s s' act
  /-- A status callback calls the action's callback. -/
  | invoked {act : Action G W} {i : SessionId} {k : Completion}
      (fires : .fire i (.enter (.completion k)) ∈ s.status) (kind : k.kind = .undock a)
      (log : s'.mem.log = .invoked (.completion k) :: s.mem.log)
      (undock : s'.mem.undock a = { s.mem.undock a with navCompleted := true })
      (exec : s'.exec = s.exec) : UndockMove a s s' act
  | returns {env : UndockEnv W} {net : Network G} {state : UndockState}
      {returned : RobotActionState} (was : s.exec = .idle) (idle : s'.exec = .idle)
      (returns : UndockReturns env (s.mem.undock a) state returned)
      (mem : s'.mem =
        (s.mem.setUndock a { s.mem.undock a with state }).record (.actionReturned a returned)) :
      UndockMove a s s' (.call (.updateAction a env net))

/-- A call that is not the action's own. -/
theorem CallStep.aside {alive : SessionId → Bool} {c : Call G W} {e' : Exec G W} {m m' : Mem G W}
    (h : CallStep alive c m m' e') {a : ActionId} (hc : ∀ env net, c ≠ .updateAction a env net) :
    Aside a m m' ∧ e'.undocks? ≠ some a := by
  have follows (limits : List ℚ) (ws : List W) :
      Aside a m ((m.newSession limits).record (.followed m.nextSession ws)) :=
    .record (m.newSession limits) rfl
  cases h with
  | followEmpty =>
      refine ⟨Aside.trans ?_ (.record _ rfl), nofun⟩
      split
      · exact (follows _ _).trans (.record _ rfl)
      · exact follows _ _
  | follow | followOver => exact ⟨(follows _ _).trans (.of_log rfl rfl), nofun⟩
  | stop | stopNone | cancelNavigation | cancelNone => exact ⟨.record m rfl, nofun⟩
  | noDock =>
      refine ⟨?_, nofun⟩
      split
      · exact .record m rfl
      · exact .of_log rfl rfl
  | @dock ws fin net m m' e' h =>
      have h₁ : Aside a m (m.record (.dockPlanned m.nextCall ws)) := .record m rfl
      have h₂ := h.aside (a := a) nofun (by cases fin <;> nofun)
      exact ⟨h₁.trans h₂.1, h₂.2⟩
  | @undock b env ws net m m' e' _ _ _ _ h =>
      have hb : b ≠ a := fun e => hc env net (e ▸ rfl)
      have h₁ : Aside a m (m.record (.undockPlanned b m.nextCall ws)) := .record m rfl
      have h₂ := h.aside (a := a) (by simpa [Caller.action?] using hb) (by simpa using hb)
      exact ⟨h₁.trans h₂.1, h₂.2⟩
  | @undockReturns b env net m state returned =>
      have hb : b ≠ a := fun e => hc env net (e ▸ rfl)
      exact ⟨(Aside.setUndock hb m _).trans (.record _ (beq_eq_false_iff_ne.mpr hb)), nofun⟩

theorem UpdateStep.aside {u u' : UpdateThread} {m m' : Mem G W} (h : UpdateStep u m m' u')
    (a : ActionId) : Aside a m m' := by
  cases h with
  | read | drainTake => exact .of_log rfl rfl
  | drainForward | replan => exact .record m rfl
  | takeFailure =>
      have h₁ : Aside a m (m.setPendingFailure false) := .of_log rfl rfl
      exact h₁.trans (.record _ rfl)

theorem StatusStep.undock [DecidableEq G] {alive : SessionId → Bool} {t t' : StatusThread G}
    {m m' : Mem G W} (h : StatusStep alive t m m' t') (a : ActionId) :
    Aside a m m' ∨ ∃ i k, t = .fire i (.enter (.completion k)) ∧ k.kind = .undock a ∧
      m'.log = .invoked (.completion k) :: m.log ∧
      m'.undock a = { m.undock a with navCompleted := true } := by
  cases h with
  | quiet => exact .inl (.of_log rfl rfl)
  | @silent i entries g st m =>
      refine .inl ?_
      split
      · exact (Aside.record m rfl).trans (.of_log rfl rfl)
      · exact .record m rfl
  | @take i entries g st c m => exact .inl ((Aside.record m rfl).trans (.of_log rfl rfl))
  | @fire i f f' m m' h | @fired i f m m' h =>
      rcases h.undock a with h₁ | ⟨k, hf, hk, -, hl, hu⟩
      · exact .inl h₁
      · exact .inr ⟨i, k, by rw [hf], hk, hl, hu⟩

/-- `handle_planning` passes the action's callback to `execute_path`. -/
theorem PathStep.undock {alive : SessionId → Bool} {a : ActionId} {ws : List W} {net : Network G}
    {m m' : Mem G W} {e' : Exec G W}
    (h : PathStep alive ⟨.undock a, ws, some (.undock a), none, net⟩
      (m.record (.undockPlanned a m.nextCall ws)) m' e') :
    (m'.undock a).state = (m.undock a).state ∧ e'.undocks? = some a ∧ Traced a m m' := by
  have traced : Traced a m ((m.record (.undockPlanned a m.nextCall ws)).drawGoal
      ⟨.undock a, ws, some (.undock a), none, net⟩) :=
    ⟨id, fun k hm _ => .inr (by simpa using hm), fun hm => by simpa using hm⟩
  cases h with
  | locked | lost => exact ⟨rfl, rfl, traced⟩
  | lostSilent _ hk => cases hk

theorem Moves.undock [DecidableEq G] {s s' : State G W} {act : Action G W} (h : Moves s act s')
    (hs : NavInv s) (a : ActionId) : UndockMove a s s' act := by
  cases h with
  | call c idle fresh =>
      by_cases hc : ∃ env net, c = .updateAction a env net
      · obtain ⟨env, net, rfl⟩ := hc
        rcases startUpdateAction_cases s.alive a env net s.mem with ⟨ws, hp, h⟩ | ⟨st, r, hr, h⟩
        · obtain ⟨hu, hrun, ht⟩ := h.undock
          exact .plans hp (hu.trans hp) hrun ht
        · exact .returns idle (congrArg Prod.snd h) hr (congrArg Prod.fst h)
      · have h₁ := (callStep s.alive c s.mem).aside (a := a) fun env net e => hc ⟨env, net, e⟩
        exact .aside h₁.1 (iff_of_false h₁.2 (by rw [idle]; nofun))
  | exec busy =>
      rcases (execStep s.alive busy s.mem).undock hs.nav.exec a with ⟨h₁, hr⟩ | ⟨hr, he, hst, ht⟩
      · exact .aside h₁ hr
      · exact .navigates hr he hst ht
  | update => exact .aside ((updateStep s.update s.mem).aside a) Iff.rfl
  | recvStatus entries => exact .aside (.of_log rfl rfl) Iff.rfl
  | status k t at_k =>
      rcases (statusStep s.alive t s.mem).undock a with h₁ | ⟨i, κ, rfl, hk, hl, hu⟩
      · exact .aside h₁ Iff.rfl
      · exact .invoked (List.mem_of_getElem? at_k) hk hl hu rfl
  | recvFeedback msg idle =>
      have h₁ : Aside a s.mem s.mem.newReceipt := .of_log rfl rfl
      exact .aside (h₁.trans (.record _ rfl)) Iff.rfl
  | feedback =>
      refine .aside (.of_log ?_ ?_) Iff.rfl
      all_goals cases s.feedback <;> rfl

/-! ### What an action's record says -/

/-- `g` is a goal id drawn for the `execute_path` call of action `a`. -/
def UndockGoal (h : List (Event G W)) (a : ActionId) (g : G) : Prop :=
  ∃ c k, .goal c g (some k) ∈ h ∧ k.kind = .undock a

theorem about_goal {c : CallId} {g : G} {k : Completion} {a : ActionId} (hk : k.kind = .undock a) :
    (.goal c g (some k) : Event G W).about a = true := by
  obtain ⟨n, kind⟩ := k
  cases hk
  simp [Event.about]

/-- What the log and the executor say of action `a`. -/
structure UndockOk (s : State G W) (a : ActionId) : Prop where
  running : s.exec.undocks? = some a → (s.mem.undock a).state = .planning
  drawn : ∀ g, UndockGoal s.mem.log a g → (s.mem.undock a).state = .planning →
    s.exec.undocks? = some a
  invoked : ∀ k, .invoked (.completion k) ∈ s.mem.log → k.kind = .undock a →
    (s.mem.undock a).navCompleted = true
  returned : .actionReturned a .failed ∈ s.mem.log → (s.mem.undock a).state = .failed

theorem UndockOk.step [DecidableEq G] {s s' : State G W} {act : Action G W} {a : ActionId}
    (hs : UndockOk s a) (h : UndockMove a s s' act) : UndockOk s' a := by
  have invoked (ht : Traced a s.mem s'.mem) (k : Completion)
      (hm : .invoked (.completion k) ∈ s'.mem.log) (hk : k.kind = .undock a) :
      (s'.mem.undock a).navCompleted = true :=
    (ht.invoked k hm hk).elim id fun hm => ht.nav (hs.invoked k hm hk)
  cases h with
  | aside mem runs =>
      refine ⟨fun hr => ?_, fun g hg hp => ?_, invoked mem.traced, fun hm => ?_⟩
      · rw [mem.2]
        exact hs.running (runs.mp hr)
      · obtain ⟨c, k, hm, hk⟩ := hg
        rw [mem.2] at hp
        exact runs.mpr (hs.drawn g ⟨c, k, mem.1.back (about_goal hk) hm, hk⟩ hp)
      · rw [mem.2]
        exact hs.returned (mem.traced.returned hm)
  | plans state still runs traced =>
      refine ⟨fun _ => still, fun _ _ _ => runs, invoked traced, fun hm => ?_⟩
      have := hs.returned (traced.returned hm)
      rw [state] at this
      cases this
  | navigates running idle state traced =>
      refine ⟨fun hr => ?_, fun _ _ hp => ?_, invoked traced, fun hm => ?_⟩
      · rw [idle] at hr; cases hr
      · rw [state] at hp; cases hp
      · have := hs.returned (traced.returned hm)
        rw [hs.running running] at this
        cases this
  | invoked fires kind log undock exec =>
      have ht : Traced a s.mem s'.mem := .of_invoked log undock
      refine ⟨fun hr => ?_, fun g hg hp => ?_, invoked ht, fun hm => ?_⟩
      · rw [undock]
        exact hs.running (exec ▸ hr)
      · obtain ⟨c, k, hm, hk⟩ := hg
        rw [log] at hm
        rw [undock] at hp
        exact exec ▸ hs.drawn g ⟨c, k, (List.mem_cons.mp hm).resolve_left nofun, hk⟩ hp
      · rw [undock]
        exact hs.returned (ht.returned hm)
  | @returns env net state returned was idle returns mem =>
      have hu : s'.mem.undock a = { s.mem.undock a with state } := by simp [mem]
      refine ⟨fun hr => ?_, fun g hg hp => ?_, fun k hm hk => ?_, fun hm => ?_⟩
      · rw [idle] at hr; cases hr
      · rw [hu] at hp
        cases returns <;> cases hp
      · rw [hu]
        rw [mem] at hm
        exact hs.invoked k ((List.mem_cons.mp hm).resolve_left nofun) hk
      · rw [hu]
        rw [mem] at hm
        rcases List.mem_cons.mp hm with e | hm
        · cases e
          cases returns <;> rfl
        · have := hs.returned hm
          cases returns with
          | failed => rfl
          | timedOut | gaveUp => rfl
          | started h | arrived h | waits h | completed h => rw [h] at this; cases this

theorem UndockOk.reach [DecidableEq G] {P : State G W → Action G W → Prop} {s : State G W}
    (h : (navigation G W).Reach P s) (a : ActionId) : UndockOk s a := by
  refine h.invariant_of (I := fun s => UndockOk s a) (fun _ hs => NavInv.reach hs) ?_
    fun _ _ _ _ hstep hs hu => hu.step ((navStep_moves hstep).undock hs a)
  refine ⟨nofun, ?_, nofun, nofun⟩
  rintro g ⟨c, k, hm, -⟩
  cases hm

end EgbFleet
