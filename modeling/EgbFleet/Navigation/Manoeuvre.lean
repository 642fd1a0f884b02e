import EgbFleet.Navigation.Invariant
import EgbFleet.Support.Logs

/-!
# Navigation — a manoeuvre reported as done has been sent

`dock` and the undock action pass `execute_path` a path of their own, but no session: it runs in
the session some earlier `follow_new_path` has left, if one is left.  Without one, `execute_path`
logs an error and calls the completion callback.

`reported_was_sent`: where a manoeuvre's `execute_path` finds a session, and `status_callback`
fires a manoeuvre's callback only for a goal that has been handed to `send_follow_path_goal`
(`Served`), `docking_finished_callback` is called and `update_action` returns `COMPLETED` only
after a goal with that manoeuvre's own waypoints was handed over.  The goal is handed over before
its reply is read, and the robot may have succeeded by then.
-/

namespace EgbFleet

variable {G W : Type}

/-! ### What it takes to report -/

/-- Call `c`, with a callback of this kind, was given these waypoints for its manoeuvre. -/
def Planned (h : List (Event G W)) (c : CallId) (ws : List W) : CompletionKind → Prop
  | .path _ _ => True
  | .dock => .dockPlanned c ws ∈ h
  | .undock a => .undockPlanned a c ws ∈ h

/-- The manoeuvre's own waypoints were handed to `send_follow_path_goal`. -/
def Delivered (h : List (Event G W)) (c : CallId) (kind : CompletionKind) : Prop :=
  ∃ ws g lanes, Planned h c ws kind ∧ .sent c g ws lanes ∈ h

/-- A manoeuvre is reported as done only once it was sent. -/
def ReportOk : Event G W → List (Event G W) → Prop
  | .docked (some c), h => Delivered h c .dock
  | .actionReturned a .completed, h => ∃ c, Delivered h c (.undock a)
  | _, _ => True

theorem Planned.mono {h h' : List (Event G W)} (hs : h <:+ h') {c : CallId} {ws : List W}
    {kind : CompletionKind} (hp : Planned h c ws kind) : Planned h' c ws kind := by
  cases kind with
  | path p fin => trivial
  | dock | undock a => exact hs.subset hp

theorem Delivered.mono {h h' : List (Event G W)} (hs : h <:+ h') {c : CallId}
    {kind : CompletionKind} (hd : Delivered h c kind) : Delivered h' c kind := by
  obtain ⟨ws, g, lanes, hp, hsent⟩ := hd
  exact ⟨ws, g, lanes, hp.mono hs, hs.subset hsent⟩

/-- A callback of `dock` or of the undock action. -/
def CompletionKind.manoeuvre : CompletionKind → Bool
  | .path _ _ => false
  | .dock | .undock _ => true

/-- The log and the undock actions. -/
structure SentOk (m : Mem G W) : Prop where
  sent : ∀ {c g ws lanes}, .sent c g ws lanes ∈ m.log →
    ∃ k, .goal c g k ∈ m.log ∧ ∀ k', k = some k' → Planned m.log c ws k'.kind
  undock : ∀ a, (m.undock a).navCompleted = true ∨ (m.undock a).state = .completed →
    ∃ c, Delivered m.log c (.undock a)
  reports : Log.Justified ReportOk m.log

/-- The executor's job is the manoeuvre its call was planned for. -/
def JobPlanned (h : List (Event G W)) (j : PathJob G W) : Prop :=
  ∀ kind, j.request.callback = some kind → Planned h j.call j.request.waypoints kind

/-- A closure about to be entered for a manoeuvre that was sent. -/
def EnterOk (h : List (Event G W)) (f : Firing) : Prop :=
  ∀ k, f = .enter (.completion k) → k.kind.manoeuvre = true → Delivered h k.call k.kind

/-- What the executor has sent where it is. -/
def ExecSent (h : List (Event G W)) : Exec G W → Prop
  | .install j _ | .sendGoal j _ => JobPlanned h j
  | .awaitReply j _ | .notAccepted j _ =>
      ∀ kind, j.request.callback = some kind → Delivered h j.call kind
  | .fire _ _ f => EnterOk h f
  | _ => True

theorem EnterOk.mono {h h' : List (Event G W)} (hs : h <:+ h') {f : Firing} (hf : EnterOk h f) :
    EnterOk h' f :=
  fun k hk hm => (hf k hk hm).mono hs

theorem ExecSent.mono {h h' : List (Event G W)} (hs : h <:+ h') {e : Exec G W}
    (he : ExecSent h e) : ExecSent h' e := by
  cases e with
  | install j i | sendGoal j i => exact fun kind hk => (he kind hk).mono hs
  | awaitReply j i | notAccepted j i => exact fun kind hk => (he kind hk).mono hs
  | fire j i f => exact EnterOk.mono hs he
  | _ => trivial

/-! ### Steps -/

/-- Events that hand over no goal and report nothing. -/
def Event.plain : Event G W → Bool
  | .sent _ _ _ _ | .docked (some _) | .actionReturned _ .completed => false
  | _ => true

theorem SentOk.report {m : Mem G W} (hm : SentOk m) {e : Event G W} (hr : ReportOk e m.log)
    (he : ∀ c g ws lanes, e ≠ .sent c g ws lanes) : SentOk (m.record e) where
  sent := fun {c g ws lanes} hs => by
    obtain ⟨k, hk, hp⟩ :=
      hm.sent ((List.mem_cons.mp hs).resolve_left fun h => he c g ws lanes h.symm)
    exact ⟨k, List.mem_cons_of_mem _ hk, fun k' h => (hp k' h).mono (List.suffix_cons _ _)⟩
  undock := fun a ha =>
    let ⟨c, hc⟩ := hm.undock a ha
    ⟨c, hc.mono (List.suffix_cons _ _)⟩
  reports := ⟨hr, hm.reports⟩

theorem SentOk.record {m : Mem G W} (hm : SentOk m) {e : Event G W} (he : e.plain = true) :
    SentOk (m.record e) := by
  refine hm.report ?_ fun c g ws lanes h => by rw [h] at he; cases he
  cases e with
  | docked c =>
      cases c with
      | none => trivial
      | some c => cases he
  | actionReturned a st =>
      cases st with
      | completed => cases he
      | _ => trivial
  | _ => trivial

/-- The fields `SentOk` does not read may change. -/
theorem SentOk.of_log {m m' : Mem G W} (hm : SentOk m) (hl : m'.log = m.log)
    (hu : m'.undock = m.undock) : SentOk m' :=
  ⟨fun h => by rw [hl] at h ⊢; exact hm.sent h, fun a ha => by rw [hl]; exact hm.undock a (hu ▸ ha),
    by rw [hl]; exact hm.reports⟩

theorem SentOk.setUndock {m : Mem G W} (hm : SentOk m) {a : ActionId} {u : UndockAction}
    (hu : u.navCompleted = true ∨ u.state = .completed → ∃ c, Delivered m.log c (.undock a)) :
    SentOk (m.setUndock a u) where
  sent := hm.sent
  undock := fun b hb => by
    by_cases e : b = a
    · subst e
      rw [Mem.setUndock_undock, Function.update_self] at hb
      exact hu hb
    · rw [Mem.setUndock_undock, Function.update_of_ne e] at hb
      exact hm.undock b hb
  reports := hm.reports

theorem SentOk.returnFrom {m : Mem G W} (hm : SentOk m) (c : Caller) : SentOk (m.returnFrom c) := by
  cases c with
  | follow p => exact hm.record rfl
  | dock => exact hm
  | undock a =>
      have h₁ : SentOk (m.setUndock a { m.undock a with state := .navigating }) :=
        hm.setUndock fun h => hm.undock a (h.imp_right nofun)
      exact h₁.record rfl

theorem ClosureStep.sent {alive : SessionId → Bool} {f : Firing} {f' : Option Firing}
    {m m' : Mem G W} (h : ClosureStep alive f m m' f') (hm : SentOk m) (hf : EnterOk m.log f) :
    SentOk m' := by
  have invoked (c : Closure) : SentOk (m.record (.invoked c)) := hm.record rfl
  cases h with
  | enterPath | enterFailure => split <;> exact (invoked _).of_log rfl rfl
  | @enterDock k m hk =>
      have hd := hf k rfl (by rw [hk]; rfl)
      rw [hk] at hd
      exact (invoked _).report (hd.mono (List.suffix_cons _ _)) nofun
  | @enterUndock k a m hk =>
      have hd := hf k rfl (by rw [hk]; rfl)
      rw [hk] at hd
      exact (invoked _).setUndock fun _ => ⟨_, hd.mono (List.suffix_cons _ _)⟩
  | reset => exact hm.of_log rfl rfl
  | reportArrived =>
      split
      · exact hm.record rfl
      · exact hm
  | reportFailed =>
      have h₁ : SentOk (m.setPendingFailure true) := hm.of_log rfl rfl
      exact h₁.record rfl

/-- A closure past its entry has nothing to do with a manoeuvre. -/
theorem ClosureStep.enterOk {alive : SessionId → Bool} {f f' : Firing} {m m' : Mem G W}
    (h : ClosureStep alive f m m' (some f')) (log : List (Event G W)) : EnterOk log f' := by
  cases h with
  | enterPath | enterFailure | reset => exact nofun

theorem PathStep.sent {alive : SessionId → Bool} {r : PathRequest G W} {m m' : Mem G W}
    {e' : Exec G W} (h : PathStep alive r m m' e') (hm : SentOk m)
    (hp : ∀ kind, r.callback = some kind → Planned m.log m.nextCall r.waypoints kind)
    (hi : ∀ kind, r.callback = some kind → kind.manoeuvre = true → m.lock alive ≠ none) :
    SentOk m' ∧ ExecSent m'.log e' := by
  have h₁ : SentOk m.newCall := hm.of_log rfl rfl
  have hd : SentOk (m.drawGoal r) := h₁.record rfl
  cases h with
  | locked => exact ⟨hd, fun kind hk => (hp kind hk).mono (List.suffix_cons _ _)⟩
  | lost hl hk =>
      refine ⟨hd, ?_⟩
      rintro k' ⟨⟩ hman
      exact absurd hl (hi _ hk hman)
  | lostSilent => exact ⟨hd.returnFrom _, trivial⟩

/-- The goal is handed over with the waypoints of the job. -/
theorem SentOk.send {m : Mem G W} (hm : SentOk m) {j : PathJob G W} {i : Option SessionId}
    (hj : JobOk m.log j i) (hp : JobPlanned m.log j) :
    SentOk (m.record (.sent j.call j.request.net.goalId j.request.waypoints j.lanes)) where
  sent := fun {c g ws lanes} hs => by
    have hcons := List.suffix_cons
      (.sent j.call j.request.net.goalId j.request.waypoints j.lanes : Event G W) m.log
    rcases List.mem_cons.mp hs with e | hs
    · cases e
      refine ⟨j.completion, hcons.subset hj.goal, fun k hk => ?_⟩
      obtain ⟨kind, hkind, rfl⟩ := Option.map_eq_some_iff.mp hk
      exact (hp kind hkind).mono hcons
    · obtain ⟨k, hk, hpk⟩ := hm.sent hs
      exact ⟨k, hcons.subset hk, fun k' h => (hpk k' h).mono hcons⟩
  undock := fun a ha =>
    let ⟨c, hc⟩ := hm.undock a ha
    ⟨c, hc.mono (List.suffix_cons _ _)⟩
  reports := ⟨trivial, hm.reports⟩

theorem ExecStep.sent {alive : SessionId → Bool} {e e' : Exec G W} {m m' : Mem G W}
    (h : ExecStep alive e m m' e') (hnav : NavOk m e) (hm : SentOk m) (he : ExecSent m.log e) :
    SentOk m' ∧ ExecSent m'.log e' := by
  have flag : SentOk (m.setPendingFailure false) := hm.of_log rfl rfl
  cases h with
  | invalidateOld | setSession | stopInvalidate | stopReset =>
      exact ⟨hm.of_log rfl rfl, trivial⟩
  | armSession =>
      have h₁ : SentOk ((m.setPendingFailure false).record .unflagged) := flag.record rfl
      exact ⟨h₁.of_log rfl rfl, trivial⟩
  | executePath h =>
      refine h.sent hm ?_ ?_
      · rintro _ ⟨⟩; trivial
      · rintro _ ⟨⟩ hman; cases hman
  | install => exact ⟨hm.of_log rfl rfl, he⟩
  | handOver =>
      exact ⟨hm.send hnav.exec.1 he, fun kind hk =>
        ⟨_, _, _, (he kind hk).mono (List.suffix_cons _ _), List.mem_cons_self⟩⟩
  | accepted => exact ⟨hm.returnFrom _, trivial⟩
  | refused => exact ⟨hm, he⟩
  | @notAccepted j i k m hk =>
      refine ⟨hm.of_log rfl rfl, ?_⟩
      obtain ⟨kind, hkind, rfl⟩ :=
        Option.map_eq_some_iff.mp (hnav.exec.2.completion hnav.mem hk)
      rintro k' ⟨⟩ -
      exact he kind hkind
  | @notAcceptedSilent j i m hk =>
      have h₁ : SentOk (m.modify i .markDone) := hm.of_log rfl rfl
      exact ⟨h₁.returnFrom _, trivial⟩
  | fire h => exact ⟨h.sent hm he, h.enterOk _⟩
  | fired h => exact ⟨(h.sent hm he).returnFrom _, trivial⟩
  | stopCancel | cancel =>
      split
      · exact ⟨hm.of_log rfl rfl, trivial⟩
      · exact ⟨hm, trivial⟩
  | stopClear =>
      have h₁ : SentOk ((m.setPendingFailure false).record .unflagged) := flag.record rfl
      exact ⟨h₁.record rfl, trivial⟩
  | stopRead | stopReadNone => exact ⟨hm, trivial⟩

/-! ### The condition -/

/-- The path a call passes to `execute_path` for a manoeuvre it will report. -/
def Call.manoeuvre (m : Mem G W) : Call G W → Option (List W)
  | .dock path finished _ => if finished then path else none
  | .updateAction a env _ =>
      if (m.undock a).state = .planning ∧ env.timedOut = false ∧ env.navigationInterface = true
      then env.path else none
  | _ => none

/-- The goal was handed to `send_follow_path_goal`. -/
def Event.sends [DecidableEq G] (g : G) : Event G W → Bool
  | .sent _ g' _ _ => g' = g
  | _ => false

/-- A manoeuvre finds a session to run in, and its success is reported by the robot only for a
goal that was handed over. -/
def Served [DecidableEq G] (s : State G W) : Action G W → Prop
  | .call c => c.manoeuvre s.mem ≠ none → s.mem.lock s.alive ≠ none
  | .status k => ∀ x ∈ s.finds k, ∀ c ∈ s.taken x, c.path? = none →
      ∃ e ∈ s.mem.log, e.sends x.goal = true
  | _ => True

instance [DecidableEq G] [DecidableEq W] (s : State G W) : ∀ a, Decidable (Served s a)
  | .call c => inferInstanceAs (Decidable (c.manoeuvre s.mem ≠ none → s.mem.lock s.alive ≠ none))
  | .status k => inferInstanceAs (Decidable (∀ x ∈ s.finds k, ∀ c ∈ s.taken x, c.path? = none →
      ∃ e ∈ s.mem.log, e.sends x.goal = true))
  | .exec | .update | .recvStatus _ | .recvFeedback _ | .feedback =>
      inferInstanceAs (Decidable True)

theorem CallStep.sent {alive : SessionId → Bool} {c : Call G W} {e' : Exec G W} {m m' : Mem G W}
    (h : CallStep alive c m m' e') (hm : SentOk m)
    (hserved : c.manoeuvre m ≠ none → m.lock alive ≠ none) : SentOk m' ∧ ExecSent m'.log e' := by
  have new (limits : List ℚ) (ws : List W) :
      SentOk ((m.newSession limits).record (.followed m.nextSession ws)) := by
    have h₁ : SentOk (m.newSession limits) := hm.of_log rfl rfl
    exact h₁.record rfl
  cases h with
  | followEmpty =>
      refine ⟨SentOk.record ?_ rfl, trivial⟩
      split
      · exact (new _ _).record rfl
      · exact new _ _
  | follow | followOver => exact ⟨(new _ _).of_log rfl rfl, trivial⟩
  | stop | stopNone | cancelNavigation | cancelNone => exact ⟨hm.record rfl, trivial⟩
  | noDock =>
      split
      · exact ⟨hm.record rfl, trivial⟩
      · exact ⟨hm, trivial⟩
  | @dock ws fin net m m' e' h =>
      have h₁ : SentOk (m.record (.dockPlanned m.nextCall ws)) := hm.record rfl
      refine h.sent h₁ ?_ ?_
      · intro kind hk
        cases fin with
        | true => cases hk; exact List.mem_cons_self
        | false => cases hk
      · intro kind hk _
        cases fin with
        | true => exact hserved (Option.some_ne_none ws)
        | false => cases hk
  | @undock a env ws net m m' e' ha htime hpath hnav h =>
      have h₁ : SentOk (m.record (.undockPlanned a m.nextCall ws)) := hm.record rfl
      refine h.sent h₁ ?_ ?_
      · rintro _ ⟨⟩
        exact List.mem_cons_self
      · intro _ _ _
        refine hserved ?_
        simp [Call.manoeuvre, ha, htime, hpath, hnav]
  | @undockReturns a env net m state returned hc =>
      have h₁ : SentOk (m.setUndock a { m.undock a with state }) :=
        hm.setUndock fun h => hm.undock a <| by
          rcases h with h | h
          · exact .inl h
          · exact hc (.inl h)
      refine ⟨h₁.report ?_ nofun, trivial⟩
      cases returned with
      | completed => exact hm.undock a (hc (.inr rfl))
      | _ => trivial

/-- The callback found with the goal of a manoeuvre that was handed over. -/
theorem SentOk.delivered [DecidableEq G] {m : Mem G W} (hm : SentOk m) (hmem : MemOk m)
    {i : SessionId} {g : G} {k : Completion} (hg : (m.sessions i).goalId = some g)
    (hk : (m.sessions i).completionCallback = some k)
    (hsent : ∃ e ∈ m.log, e.sends g = true) : Delivered m.log k.call k.kind := by
  obtain ⟨e, he, hsends⟩ := hsent
  cases e with
  | sent c g' ws lanes =>
      obtain rfl : g' = g := of_decide_eq_true hsends
      obtain ⟨k', hk', hplanned⟩ := hm.sent he
      obtain ⟨rfl, rfl⟩ := hmem.goals.goal_inj hk' (hmem.goal_of_completion hg hk)
      exact ⟨ws, g', lanes, hplanned k rfl, he⟩
  | _ => cases hsends

theorem StatusStep.sent [DecidableEq G] {alive : SessionId → Bool} {t t' : StatusThread G}
    {m m' : Mem G W} (h : StatusStep alive t m m' t') (hm : SentOk m)
    (hf : t.Fires fun _ => EnterOk m.log) : SentOk m' := by
  cases h with
  | quiet => exact hm
  | silent =>
      split
      · exact (hm.record rfl).of_log rfl rfl
      · exact hm.record rfl
  | take => exact (hm.record rfl).of_log rfl rfl
  | fire h | fired h => exact h.sent hm hf

theorem UpdateStep.sent {u u' : UpdateThread} {m m' : Mem G W} (h : UpdateStep u m m' u')
    (hm : SentOk m) : SentOk m' := by
  cases h with
  | read => exact hm
  | drainTake => exact hm.of_log rfl rfl
  | drainForward | replan => exact hm.record rfl
  | takeFailure =>
      have h₁ : SentOk (m.setPendingFailure false) := hm.of_log rfl rfl
      exact h₁.record rfl

theorem FeedbackThread.sent [DecidableEq G] (alive : SessionId → Bool) (t : FeedbackThread G)
    {m : Mem G W} (hm : SentOk m) : SentOk (t.step alive m).1 := by
  cases t <;> exact hm.of_log rfl rfl

/-! ### Every run -/

/-- What was sent, wherever a callback may still be on its way. -/
structure SentInv (s : State G W) : Prop where
  nav : NavInv s
  mem : SentOk s.mem
  exec : ExecSent s.mem.log s.exec
  status : ∀ t ∈ s.status, t.Fires fun _ => EnterOk s.mem.log

theorem SentInv.start : SentInv (navStart : State G W) where
  nav := .start
  mem := by
    refine ⟨?_, fun a h => ?_, trivial⟩
    · simp [navStart, Mem.start]
    · simp [navStart, Mem.start] at h
  exec := trivial
  status := nofun

theorem SentInv.step [DecidableEq G] {s s' : State G W} {a : Action G W} (hP : Served s a)
    (h : navStep s a = some s') (hs : SentInv s) : SentInv s' := by
  have hm := navStep_moves h
  have hlog := hm.suffix hs.nav
  obtain ⟨hmem, hexec⟩ : SentOk s'.mem ∧ ExecSent s'.mem.log s'.exec := by
    cases hm with
    | call c idle fresh => exact (callStep s.alive c s.mem).sent hs.mem hP
    | exec busy => exact (execStep s.alive busy s.mem).sent hs.nav.nav hs.mem hs.exec
    | update => exact ⟨(updateStep s.update s.mem).sent hs.mem, hs.exec.mono hlog⟩
    | recvStatus entries => exact ⟨hs.mem, hs.exec⟩
    | status k t at_k =>
        have ht := hs.status t (List.mem_of_getElem? at_k)
        exact ⟨(statusStep s.alive t s.mem).sent hs.mem ht, hs.exec.mono hlog⟩
    | recvFeedback msg idle =>
        have h₁ : SentOk s.mem.newReceipt := hs.mem.of_log rfl rfl
        exact ⟨h₁.record rfl, hs.exec.mono hlog⟩
    | feedback => exact ⟨s.feedback.sent s.alive hs.mem, hs.exec.mono hlog⟩
  refine ⟨hs.nav.step h, hmem, hexec, hm.fires hs.status (fun _ _ hf => hf.mono hlog) ?_ ?_⟩
  · rintro k x c rfl hx hc - k' ⟨⟩ hman
    obtain ⟨_, -, hg, -⟩ := State.finds_eq_some.mp hx
    obtain ⟨-, hk'⟩ := completion_of_closureFor hc
    refine (hs.mem.delivered hs.nav.nav.mem hg hk' ?_).mono hlog
    refine hP x hx _ hc ?_
    rcases k' with ⟨_, _ | _ | _⟩
    · cases hman
    · rfl
    · rfl
  · intro k i f f' _ hf _
    exact hf.enterOk _

/-- **Never done without being sent.**  In runs whose manoeuvres find a session, and in which the
robot reports success only for goals handed over, `docking_finished_callback` is called and
`update_action` returns `COMPLETED` only after a goal with the manoeuvre's own waypoints was
handed to `send_follow_path_goal`. -/
theorem reported_was_sent [DecidableEq G] {t : State G W} (h : (navigation G W).Reach Served t) :
    Log.Justified ReportOk t.mem.log :=
  (h.invariant (I := SentInv) .start fun _ _ _ hP hstep hs => hs.step hP hstep).mem.reports

/-- A path is followed; then the robot undocks in its session, and reports success while
`send_follow_path_goal` still waits for its reply. -/
def undocking : List (Action ℕ ℕ) :=
  following ++ [.call (.dock (some [4, 5]) true ⟨9, true, some true⟩), .exec, .exec,
    .recvStatus [(9, .succeeded)], .status 0, .status 0, .status 0]

theorem reported_was_sent_undocking :
    ∃ t, (navigation ℕ ℕ).Run Served navStart undocking t ∧
      t.mem.log.head? = some (.docked (some 1)) ∧ Log.Justified ReportOk t.mem.log := by
  obtain ⟨t, ht, hq⟩ := Lts.exists_run (navigation ℕ ℕ) Served navStart undocking
    (fun t => t.mem.log.head? == some (.docked (some 1))) (by decide)
  exact ⟨t, ht, beq_iff_eq.mp hq, reported_was_sent ⟨_, ht⟩⟩

/-- The robot is asked to undock before it has been given a path: there is no session, nothing is
sent, and `docking_finished_callback` is called. -/
theorem reported_unsent :
    ¬ ∀ t : State ℕ ℕ, (navigation ℕ ℕ).Reach (fun _ _ => True) t →
      Log.Justified ReportOk t.mem.log := by
  intro h
  obtain ⟨t, ht, hq⟩ := Lts.exists_run (navigation ℕ ℕ) (fun _ _ => True) navStart
    [.call (.dock (some [4, 5]) true ⟨9, true, some true⟩), .exec]
    (fun t => t.mem.log == [.docked (some 0), .invoked (.completion ⟨0, .dock⟩),
      .goal 0 9 (some ⟨0, .dock⟩), .dockPlanned 0 [4, 5]]) (by decide)
  have hr := h t ⟨_, ht⟩
  rw [beq_iff_eq.mp hq] at hr
  obtain ⟨ws, g, lanes, -, hsent⟩ := hr.1
  simp at hsent

end EgbFleet
