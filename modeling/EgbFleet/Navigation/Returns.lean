import EgbFleet.Navigation.Undocking

/-!
# Navigation — the calls of `update_action`

What a step of the machine is to whoever calls `update_action`: nothing, the call that leaves the
executor at work on the action's `execute_path`, a call that returns at once, or the return of
`execute_path` (`Calls`).  `Moves.calls` inverts every step into one of these.

What a call returns is the last that it records.
-/

namespace EgbFleet

variable {G W : Type}

def Event.returned? : Event G W → Option (ActionId × RobotActionState)
  | .actionReturned a state => some (a, state)
  | _ => none

/-- What the calls have returned, newest first. -/
def returns (h : List (Event G W)) : List (ActionId × RobotActionState) :=
  h.filterMap Event.returned?

theorem mem_returns {h : List (Event G W)} {a : ActionId} {st : RobotActionState} :
    (a, st) ∈ returns h ↔ .actionReturned a st ∈ h := by
  constructor
  · intro hm
    obtain ⟨e, he, hr⟩ := List.mem_filterMap.mp hm
    cases e with
    | actionReturned b st' => cases hr; exact he
    | _ => cases hr
  · exact fun hm => List.mem_filterMap.mpr ⟨_, hm, rfl⟩

/-- No call returns. -/
abbrev Tacit : List (Event G W) → List (Event G W) → Prop :=
  Log.Grows fun e => e.returned?.isNone

theorem Tacit.returns {h h' : List (Event G W)} (hg : Tacit h h') : returns h' = returns h :=
  Log.Grows.eq hg fun _ _ he => List.filterMap_cons_none (Option.isNone_iff_eq_none.mp he)

theorem tacit_record (m : Mem G W) {e : Event G W} (he : e.returned?.isNone = true) :
    Tacit m.log (m.record e).log :=
  (Log.Grows.refl _).cons he

/-- `execute_path` returns to its caller: a call of `update_action` returns, or none does. -/
theorem returnFrom_cases (c : Caller) (m : Mem G W) :
    (c.action? = none ∧ Tacit m.log (m.returnFrom c).log) ∨
      ∃ a, c.action? = some a ∧ (m.returnFrom c).log = .actionReturned a .inProgress :: m.log := by
  cases c with
  | follow p => exact .inl ⟨rfl, tacit_record m rfl⟩
  | dock => exact .inl ⟨rfl, .refl _⟩
  | undock a => exact .inr ⟨a, rfl, rfl⟩

theorem ClosureStep.tacit {alive : SessionId → Bool} {f : Firing} {f' : Option Firing}
    {m m' : Mem G W} (h : ClosureStep alive f m m' f') : Tacit m.log m'.log := by
  cases h with
  | enterPath | enterFailure => split <;> exact tacit_record m rfl
  | enterDock => exact (tacit_record m rfl).cons rfl
  | enterUndock | reportFailed => exact tacit_record m rfl
  | reset => exact .refl _
  | reportArrived =>
      split
      · exact tacit_record m rfl
      · exact .refl _

theorem PathStep.tacit {alive : SessionId → Bool} {r : PathRequest G W} {m m' : Mem G W}
    {e' : Exec G W} (h : PathStep alive r m m' e')
    (hr : r.caller.action? = none ∨ r.callback ≠ none) :
    Tacit m.log m'.log ∧ e'.undocks? = r.caller.action? := by
  have draw : Tacit m.log (m.drawGoal r).log := (Log.Grows.refl _).cons rfl
  cases h with
  | locked | lost => exact ⟨draw, rfl⟩
  | lostSilent _ hk =>
      have hc := hr.resolve_right fun h => h hk
      rcases returnFrom_cases r.caller (m.drawGoal r) with ⟨-, ht⟩ | ⟨a, ha, -⟩
      · exact ⟨draw.trans ht, hc.symm⟩
      · rw [hc] at ha
        cases ha

theorem ExecStep.calls {alive : SessionId → Bool} {e e' : Exec G W} {m m' : Mem G W}
    (h : ExecStep alive e m m' e') :
    (Tacit m.log m'.log ∧ e'.undocks? = e.undocks?) ∨
      ∃ a h, e.undocks? = some a ∧ e' = .idle ∧ Tacit m.log h ∧
        m'.log = .actionReturned a .inProgress :: h := by
  have back {m₁ : Mem G W} {c : Caller} (ht : Tacit m.log m₁.log) (hc : e.undocks? = c.action?) :
      (Tacit m.log (m₁.returnFrom c).log ∧ (Exec.idle : Exec G W).undocks? = e.undocks?) ∨
        ∃ a h, e.undocks? = some a ∧ (Exec.idle : Exec G W) = .idle ∧ Tacit m.log h ∧
          (m₁.returnFrom c).log = .actionReturned a .inProgress :: h := by
    rw [hc]
    rcases returnFrom_cases c m₁ with ⟨hn, ht'⟩ | ⟨a, ha, hl⟩
    · exact .inl ⟨ht.trans ht', hn.symm⟩
    · exact .inr ⟨a, m₁.log, ha, rfl, ht, hl⟩
  cases h with
  | invalidateOld | setSession | install | refused | notAccepted | stopRead | stopReadNone
  | stopInvalidate | stopReset => exact .inl ⟨.refl _, rfl⟩
  | armSession => exact .inl ⟨tacit_record m rfl, rfl⟩
  | executePath h => exact .inl (h.tacit (.inl rfl))
  | handOver => exact .inl ⟨tacit_record m rfl, rfl⟩
  | accepted | notAcceptedSilent => exact back (.refl _) rfl
  | fire h => exact .inl ⟨h.tacit, rfl⟩
  | fired h => exact back h.tacit rfl
  | stopCancel | cancel => split <;> exact .inl ⟨.refl _, rfl⟩
  | stopClear => exact .inl ⟨(tacit_record m rfl).cons rfl, rfl⟩

/-- A call that is not of `update_action`. -/
theorem CallStep.tacit {alive : SessionId → Bool} {c : Call G W} {e' : Exec G W} {m m' : Mem G W}
    (h : CallStep alive c m m' e') (hc : ∀ a env net, c ≠ .updateAction a env net) :
    Tacit m.log m'.log ∧ e'.undocks? = none := by
  have follows (limits : List ℚ) (ws : List W) :
      Tacit m.log ((m.newSession limits).record (.followed m.nextSession ws)).log :=
    tacit_record (m.newSession limits) rfl
  cases h with
  | followEmpty =>
      refine ⟨Log.Grows.cons ?_ rfl, rfl⟩
      split
      · exact (follows _ _).cons rfl
      · exact follows _ _
  | follow | followOver => exact ⟨follows _ _, rfl⟩
  | stop | stopNone | cancelNavigation | cancelNone => exact ⟨tacit_record m rfl, rfl⟩
  | noDock =>
      split
      · exact ⟨tacit_record m rfl, rfl⟩
      · exact ⟨.refl _, rfl⟩
  | @dock ws fin net m m' e' h =>
      have h₁ : Tacit m.log (m.record (.dockPlanned m.nextCall ws)).log := tacit_record m rfl
      have h₂ := h.tacit (.inl rfl)
      exact ⟨h₁.trans h₂.1, h₂.2⟩
  | undock | undockReturns => exact absurd rfl (hc _ _ _)

theorem UpdateStep.tacit {u u' : UpdateThread} {m m' : Mem G W} (h : UpdateStep u m m' u') :
    Tacit m.log m'.log := by
  cases h with
  | read | drainTake => exact .refl _
  | drainForward | replan => exact tacit_record m rfl
  | takeFailure => exact tacit_record (m.setPendingFailure false) rfl

theorem StatusStep.tacit [DecidableEq G] {alive : SessionId → Bool} {t t' : StatusThread G}
    {m m' : Mem G W} (h : StatusStep alive t m m' t') : Tacit m.log m'.log := by
  cases h with
  | quiet => exact .refl _
  | silent => split <;> exact tacit_record m rfl
  | take => exact tacit_record m rfl
  | fire h | fired h => exact h.tacit

/-- What a step is to the calls of `update_action`. -/
inductive Calls (s s' : State G W) : Action G W → Prop where
  | aside {act : Action G W} (other : ∀ a env net, act ≠ .call (.updateAction a env net))
      (tacit : Tacit s.mem.log s'.mem.log) (runs : s'.exec.undocks? = s.exec.undocks?) :
      Calls s s' act
  | starts {a : ActionId} {env : UndockEnv W} {net : Network G}
      (state : (s.mem.undock a).state = .planning) (inTime : env.timedOut = false)
      (tacit : Tacit s.mem.log s'.mem.log) (runs : s'.exec.undocks? = some a) :
      Calls s s' (.call (.updateAction a env net))
  | returnsAtOnce {a : ActionId} {env : UndockEnv W} {net : Network G} {state : UndockState}
      {returned : RobotActionState} (idle : s'.exec = .idle)
      (returns : UndockReturns env (s.mem.undock a) state returned)
      (log : s'.mem.log = .actionReturned a returned :: s.mem.log) :
      Calls s s' (.call (.updateAction a env net))
  /-- `execute_path` returns. -/
  | returns {a : ActionId} {h : List (Event G W)} (runs : s.exec.undocks? = some a)
      (idle : s'.exec = .idle) (tacit : Tacit s.mem.log h)
      (log : s'.mem.log = .actionReturned a .inProgress :: h) : Calls s s' .exec

theorem Moves.calls [DecidableEq G] {s s' : State G W} {act : Action G W} (h : Moves s act s') :
    Calls s s' act := by
  cases h with
  | call c idle fresh =>
      by_cases hc : ∃ a env net, c = .updateAction a env net
      · obtain ⟨a, env, net, rfl⟩ := hc
        rcases startUpdateAction_cases s.alive a env net s.mem with ⟨ws, hp, h⟩ | ⟨st, r, hr, h⟩
        · have ht : Tacit s.mem.log (s.mem.record (.undockPlanned a s.mem.nextCall ws)).log :=
            tacit_record s.mem rfl
          obtain ⟨ht', hruns⟩ := h.tacit (.inr (Option.some_ne_none _))
          refine .starts hp (Bool.eq_false_iff.mpr fun htime => ?_) (ht.trans ht') hruns
          -- an action that is out of time plans nothing
          have hidle : (startUpdateAction s.alive a env net s.mem).2 = .idle := by
            simp [startUpdateAction, hp, htime]
          rw [hidle] at hruns
          cases hruns
        · exact .returnsAtOnce (congrArg Prod.snd h) hr (by
            simp only [Call.start]
            rw [h]
            rfl)
      · have hc' : ∀ a env net, c ≠ .updateAction a env net := fun a env net e =>
          hc ⟨a, env, net, e⟩
        obtain ⟨ht, hruns⟩ := (callStep s.alive c s.mem).tacit hc'
        refine .aside (fun a env net e => ?_) ht (hruns.trans (by rw [idle]; rfl))
        cases e
        exact hc' a env net rfl
  | exec busy =>
      rcases (execStep s.alive busy s.mem).calls with ⟨ht, hr⟩ | ⟨a, h, hr, hi, ht, hl⟩
      · exact .aside (by simp) ht hr
      · exact .returns hr hi ht hl
  | update => exact .aside (by simp) (updateStep s.update s.mem).tacit rfl
  | recvStatus entries => exact .aside (by simp) (.refl _) rfl
  | status k t at_k => exact .aside (by simp) (statusStep s.alive t s.mem).tacit rfl
  | recvFeedback msg idle => exact .aside (by simp) ((Log.Grows.refl _).cons rfl) rfl
  | feedback =>
      refine .aside (by simp) ?_ rfl
      cases s.feedback <;> exact .refl _

end EgbFleet
