import EgbFleet.Navigation.Alive
import EgbFleet.Navigation.Current
import EgbFleet.Navigation.Legs
import EgbFleet.Navigation.Manoeuvre
import EgbFleet.Navigation.Outcome

/-!
# Navigation — the goal that stands

A goal stands from the `execute_path` call that draws it until the next goal, path, `stop` or
`cancel_navigation` (`standingGoal`).  Where it stands and has been handed over, it is in the
session that `session_wp_` locks: the executor leaves that session alone (`Stand`), so the goal
leaves it with its terminal status, or with a closure of the session's own path (`Moves.loses`).

`Tracked.resolved`: a message that names a goal handed over, and whose goal still stands when the
status callback looks for it, ends that goal when the callback is done.  It is stated for any
predicate `D` of the log that comes true with the goal's terminal status.
-/

namespace EgbFleet

variable {G W : Type}

/-! ### The log -/

/-- The path an event gives, if it has waypoints: without, `follow_new_path` touches no session
but its own. -/
def Event.path? : Event G W → Option SessionId
  | .followed p (_ :: _) => some p
  | _ => none

/-- The path most recently given to `follow_new_path` with waypoints. -/
def latestPath (h : List (Event G W)) : Option SessionId := h.findSome? Event.path?

/-- The events with which the goal drawn before them no longer stands. -/
def Event.withdraws : Event G W → Bool
  | .goal _ _ _ | .stopCalled | .cancelCalled => true
  | .followed _ ws => !ws.isEmpty
  | _ => false

/-- The goal drawn last, if no path, no `stop` and no `cancel_navigation` has come since. -/
def standingGoal (h : List (Event G W)) : Option G := (h.find? Event.withdraws).bind Event.draws?

/-- A path with waypoints has been given since `g` was drawn. -/
def pathSince [DecidableEq G] (g : G) (h : List (Event G W)) : Bool :=
  (h.takeWhile fun e => decide (e.draws? ≠ some g)).any (·.path?.isSome)

theorem Event.path?_eq_none {e : Event G W} (he : e.withdraws = false) : e.path? = none := by
  cases e with
  | followed p ws =>
      cases ws with
      | nil => rfl
      | cons w ws => cases he
  | _ => rfl

theorem Event.draws?_eq_none {e : Event G W} (he : e.withdraws = false) : e.draws? = none := by
  cases e with
  | goal c g k => cases he
  | _ => rfl

theorem latestPath_cons (e : Event G W) (h : List (Event G W)) :
    latestPath (e :: h) = e.path?.or (latestPath h) := by
  cases he : e.path? <;> simp [latestPath, he]

theorem standingGoal_cons (e : Event G W) (h : List (Event G W)) :
    standingGoal (e :: h) = if e.withdraws then e.draws? else standingGoal h := by
  cases he : e.withdraws <;> simp [standingGoal, he]

theorem pathSince_cons [DecidableEq G] {g : G} {e : Event G W} {h : List (Event G W)}
    (he : e.draws? ≠ some g) : pathSince g (e :: h) = (e.path?.isSome || pathSince g h) := by
  simp [pathSince, he]

/-- No event is added with which a goal ceases to stand. -/
abbrev Calm : List (Event G W) → List (Event G W) → Prop := Log.Grows fun e => !e.withdraws

section

variable {h h' : List (Event G W)}

theorem Calm.latest (hg : Calm h h') : latestPath h' = latestPath h :=
  Log.Grows.eq hg fun e h he => by
    rw [latestPath_cons, Event.path?_eq_none (by simpa using he), Option.none_or]

theorem Calm.standing (hg : Calm h h') : standingGoal h' = standingGoal h :=
  Log.Grows.eq hg fun e h he => by
    rw [standingGoal_cons, if_neg (by simpa using he)]

theorem Calm.pathSince [DecidableEq G] (hg : Calm h h') (g : G) :
    pathSince g h' = pathSince g h :=
  Log.Grows.eq hg fun e h he => by
    have he : e.withdraws = false := by simpa using he
    rw [pathSince_cons (by rw [Event.draws?_eq_none he]; exact nofun),
      Event.path?_eq_none he, Option.isSome_none, Bool.false_or]

end

theorem calm_record (m : Mem G W) {e : Event G W} (he : e.withdraws = false) :
    Calm m.log (m.record e).log :=
  (Log.Grows.refl _).cons (by simp [he])

theorem calm_record_if (m : Mem G W) {e : Event G W} (he : e.withdraws = false) (b : Bool) :
    Calm m.log (if b then m.record e else m).log := by
  split
  · exact calm_record m he
  · exact .refl _

/-- An empty path has arrived, and the call has returned. -/
theorem calm_followEmpty (m : Mem G W) (limits : List ℚ) (finished : Bool) (p : SessionId) :
    Calm m.log ((if finished then
        ((m.newSession limits).record (.followed p [])).record (.finished p)
      else (m.newSession limits).record (.followed p [])).record (.followReturned p)).log :=
  have hfollowed : Calm m.log ((m.newSession limits).record (.followed p [])).log :=
    calm_record (m.newSession limits) rfl
  (hfollowed.trans (calm_record_if _ rfl finished)).trans (calm_record _ rfl)

theorem calm_returnFrom (c : Caller) (m : Mem G W) : Calm m.log (m.returnFrom c).log := by
  cases c with
  | follow p => exact calm_record m rfl
  | dock => exact .refl _
  | undock a => exact (Log.Grows.refl _).cons rfl

theorem ClosureStep.calm {alive : SessionId → Bool} {f : Firing} {f' : Option Firing}
    {m m' : Mem G W} (h : ClosureStep alive f m m' f') : Calm m.log m'.log := by
  cases h with
  | enterPath | enterFailure => split <;> exact calm_record m rfl
  | enterDock => exact (calm_record m rfl).cons rfl
  | enterUndock => exact calm_record m rfl
  | reset => exact .refl _
  | reportArrived =>
      split
      · exact calm_record m rfl
      · exact .refl _
  | reportFailed => exact (Log.Grows.refl _).cons rfl

theorem StatusStep.calm [DecidableEq G] {alive : SessionId → Bool} {t t' : StatusThread G}
    {m m' : Mem G W} (h : StatusStep alive t m m' t') : Calm m.log m'.log := by
  cases h with
  | quiet => exact .refl _
  | silent => split <;> exact calm_record m rfl
  | take => exact calm_record m rfl
  | fire h | fired h => exact h.calm

theorem UpdateStep.calm {u u' : UpdateThread} {m m' : Mem G W} (h : UpdateStep u m m' u') :
    Calm m.log m'.log := by
  cases h with
  | read | drainTake => exact .refl _
  | drainForward | replan => exact calm_record m rfl
  | takeFailure => exact (Log.Grows.refl _).cons rfl

/-- `execute_path` draws a goal, and nothing else that matters here. -/
theorem PathStep.draws {alive : SessionId → Bool} {r : PathRequest G W} {m m' : Mem G W}
    {e' : Exec G W} (h : PathStep alive r m m' e') :
    ∃ k, Calm (.goal m.nextCall r.net.goalId k :: m.log) m'.log := by
  cases h with
  | locked | lost => exact ⟨_, .refl _⟩
  | lostSilent => exact ⟨_, calm_returnFrom _ (m.drawGoal r)⟩

/-! ### The executor -/

/-- The path whose session `session_wp_` does not point to yet. -/
def Exec.announcing? : Exec G W → Option SessionId
  | .invalidateOld f _ | .armSession f | .setSession f => some f.path
  | _ => none

/-- What stands while the executor is here, where that is fixed: the goal of the `execute_path`
under way, or no goal. -/
def Exec.stands? : Exec G W → Option (Option G)
  | .install j _ | .sendGoal j _ | .awaitReply j _ | .notAccepted j _ | .fire j _ (.enter _) =>
      some (some j.request.net.goalId)
  | .idle | .fire _ _ (.reset _) | .fire _ _ (.report _) => none
  | .invalidateOld _ _ | .armSession _ | .setSession _ | .executePath _ | .stopCancel _ | .stopRead
  | .stopInvalidate _ | .stopReset _ | .stopClear _ | .cancel _ => some none

/-- The goal the executor installs in its next step, and the session. -/
def Exec.installing? : Exec G W → Option (PathJob G W × SessionId)
  | .install j i => some (j, i)
  | _ => none

/-- The latest path, the goal that stands, and the sessions. -/
structure Stand [DecidableEq G] (m : Mem G W) (e : Exec G W) : Prop where
  latest : latestPath m.log = e.announcing?.or m.sessionWp
  session : ∀ i, m.session = some i → latestPath m.log = some i
  stands : ∀ x, e.stands? = some x → standingGoal m.log = x
  installs : ∀ x, e.installing? = some x → latestPath m.log = some x.2
  goals : ∀ i g, (m.sessions i).goalId = some g →
    latestPath m.log = some i ∨ pathSince g m.log = true

section

variable [DecidableEq G]

/-- A step that installs no goal and after which the same goal stands. -/
theorem Stand.tame {m m' : Mem G W} {e e' : Exec G W} (hm : Stand m e) (ht : Tame m m')
    (hlog : Calm m.log m'.log) (ha : e'.announcing? = e.announcing?)
    (hs : ∀ x, e'.stands? = some x → e.stands? = some x)
    (hi : e'.installing? = none ∨ e' = e) : Stand m' e' where
  latest := by rw [hlog.latest, hm.latest, ha, ht.sessionWp]
  session := fun i hsess => by
    rw [hlog.latest]
    rcases ht.session with e | e
    · exact hm.session i (e ▸ hsess)
    · rw [e] at hsess; cases hsess
  stands := fun x hx => by rw [hlog.standing]; exact hm.stands x (hs x hx)
  installs := fun x hx => by
    rcases hi with hi | rfl
    · rw [hi] at hx; cases hx
    · rw [hlog.latest]; exact hm.installs x hx
  goals := fun i g hg => by
    rw [hlog.latest, hlog.pathSince]
    exact hm.goals i g (ht.goalId hg)

/-- The executor is idle again. -/
theorem Stand.idle {m m' : Mem G W} {e : Exec G W} (hm : Stand m e) (ht : Tame m m')
    (hlog : Calm m.log m'.log) (ha : e.announcing? = none) : Stand m' .idle :=
  hm.tame ht hlog ha.symm (by rintro _ ⟨⟩) (.inl rfl)

/-- A goal is drawn: it stands, and goes to the session of the latest path. -/
theorem PathStep.stand {alive : SessionId → Bool} {r : PathRequest G W} {m m' : Mem G W}
    {e e' : Exec G W} (h : PathStep alive r m m' e') (hm : Stand m e) (hmem : MemOk m)
    (ha : e.announcing? = none) (hr : m.Fresh r.net.goalId) : Stand m' e' := by
  obtain ⟨k, hlog⟩ := h.draws
  have hlatest : latestPath m'.log = latestPath m.log := by
    rw [hlog.latest, latestPath_cons]; rfl
  have hwp : m'.sessionWp = m.sessionWp := by
    cases h with
    | locked | lost => rfl
    | lostSilent => exact (Tame.returnFrom _ _).sessionWp
  have hnow : latestPath m'.log = m'.sessionWp := by
    rw [hlatest, hm.latest, ha, hwp, Option.none_or]
  refine ⟨?_, fun i hi => ?_, fun x hx => ?_, fun x hx => ?_, fun i g hg => ?_⟩
  · rw [hnow]
    cases h with
    | locked | lost | lostSilent => rfl
  · rw [hlatest]
    exact hm.session i (h.session ▸ hi)
  · rw [hlog.standing, standingGoal_cons]
    cases h with
    | locked | lost => exact Option.some.inj hx
    | lostSilent => cases hx
  · rw [hnow, hwp]
    cases h with
    | locked hi => cases hx; exact (Mem.lock_eq_some.mp hi).1
    | lost | lostSilent => cases hx
  · rw [h.sessions] at hg
    rw [hlatest, hlog.pathSince]
    refine (hm.goals i g hg).imp_right fun hs => ?_
    have hne : (.goal m.nextCall r.net.goalId k : Event G W).draws? ≠ some g := fun he => by
      obtain ⟨⟨c, hc⟩, -⟩ := (hmem.sessions i).goal g hg
      cases he
      exact Mem.fresh_iff.mp hr c _ hc
    rw [pathSince_cons hne, hs, Bool.or_true]

theorem ExecStep.stand {alive : SessionId → Bool} {e e' : Exec G W} {m m' : Mem G W}
    (h : ExecStep alive e m m' e') (hm : Stand m e) (hnav : NavOk m e) : Stand m' e' := by
  cases h with
  | invalidateOld => exact hm.tame (.invalidate _ _) (.refl _) rfl (fun _ => id) (.inl rfl)
  | @armSession f m =>
      have hlog : Calm m.log ((m.setPendingFailure false).record .unflagged).log :=
        (Log.Grows.refl _).cons rfl
      refine ⟨hlog.latest.trans hm.latest, fun i hi => hlog.latest.trans (hm.session i hi),
        fun x hx => hlog.standing.trans (hm.stands x hx), by rintro _ ⟨⟩, fun i g hg => ?_⟩
      rw [goalId_modify rfl] at hg
      rw [Mem.modify_log, hlog.latest, hlog.pathSince]
      exact hm.goals i g hg
  | @setSession f m => exact ⟨hm.latest, hm.session, hm.stands, by rintro _ ⟨⟩, hm.goals⟩
  | @executePath f m m' e' h => exact h.stand hm hnav.mem rfl hnav.exec.1.fresh
  | @install j i m =>
      refine ⟨hm.latest, hm.session, hm.stands, by rintro _ ⟨⟩, fun i' g hg => ?_⟩
      by_cases e : i' = i
      · subst e
        exact .inl (hm.installs _ rfl)
      · rw [Mem.sessions_modify_of_ne _ _ _ e] at hg
        exact hm.goals i' g hg
  | handOver => exact hm.tame (.record _ rfl) (calm_record _ rfl) rfl (fun _ => id) (.inl rfl)
  | accepted => exact hm.idle (.returnFrom _ _) (calm_returnFrom _ _) rfl
  | refused => exact hm.tame (.refl _) (.refl _) rfl (fun _ => id) (.inl rfl)
  | notAccepted hk =>
      refine ⟨hm.latest, hm.session, hm.stands, by rintro _ ⟨⟩, fun i' g hg => ?_⟩
      rw [goalId_modify rfl] at hg
      exact hm.goals i' g hg
  | @notAcceptedSilent j i m hk =>
      have h₁ : Stand (m.modify i .markDone) .idle := by
        refine ⟨hm.latest, hm.session, by rintro _ ⟨⟩, by rintro _ ⟨⟩, fun i' g hg => ?_⟩
        rw [goalId_modify rfl] at hg
        exact hm.goals i' g hg
      exact h₁.idle (.returnFrom _ _) (calm_returnFrom _ _) rfl
  | @fire j i f f' m m' h =>
      refine hm.tame h.tame h.calm rfl (fun x hx => ?_) (.inl rfl)
      cases h with
      | enterPath | enterFailure | reset => cases hx
  | fired h =>
      exact hm.idle (h.tame.trans (.returnFrom _ _)) (h.calm.trans (calm_returnFrom _ _)) rfl
  | stopCancel | cancel =>
      split
      · exact hm.tame (.invalidate _ _) (.refl _) rfl (by simp [Exec.stands?]) (.inl rfl)
      · exact hm.tame (.refl _) (.refl _) rfl (by simp [Exec.stands?]) (.inl rfl)
  | stopRead | stopReadNone => exact hm.tame (.refl _) (.refl _) rfl (fun _ => id) (.inl rfl)
  | stopInvalidate => exact hm.tame (.invalidate _ _) (.refl _) rfl (fun _ => id) (.inl rfl)
  | stopReset => exact hm.tame (.setSession _) (.refl _) rfl (fun _ => id) (.inl rfl)
  | stopClear =>
      exact hm.idle (((Tame.setPendingFailure _ _).trans (.record _ rfl)).trans (.record _ rfl))
        (((Log.Grows.refl _).cons rfl).cons rfl) rfl

/-- Another path is given. -/
theorem Stand.follow {m : Mem G W} {e' : Exec G W} {ws : List W} (hws : ws ≠ [])
    (limits : List ℚ) (ha : e'.announcing? = some m.nextSession)
    (hs : e'.stands? = some none) (hi : e'.installing? = none) :
    Stand (((m.newSession limits).record (.followed m.nextSession ws)).setSession
      (some m.nextSession)) e' := by
  obtain ⟨w, ws, rfl⟩ := List.exists_cons_of_ne_nil hws
  have hlog : (((m.newSession limits).record (.followed m.nextSession (w :: ws))).setSession
      (some m.nextSession)).log = .followed m.nextSession (w :: ws) :: m.log := rfl
  have hlatest : latestPath (.followed m.nextSession (w :: ws) :: m.log) = some m.nextSession :=
    rfl
  refine ⟨?_, fun i hi => ?_, fun x hx => ?_, fun x hx => ?_, fun i g _ => .inr ?_⟩
  · rw [hlog, hlatest, ha, Option.some_or]
  · rw [hlog, hlatest]; exact hi
  · rw [hlog, standingGoal_cons]
    exact Option.some.inj (hs.symm.trans hx)
  · rw [hi] at hx; cases hx
  · rw [hlog, pathSince_cons (by exact nofun)]
    rfl

theorem CallStep.stand {alive : SessionId → Bool} {c : Call G W} {e' : Exec G W} {m m' : Mem G W}
    (h : CallStep alive c m m' e') (hm : Stand m .idle) (hmem : MemOk m)
    (hg : ∀ g, c.goalId? = some g → m.Fresh g) : Stand m' e' := by
  have record {e : Event G W} (he : e.withdraws = false) (hq : e.quiet = true) :
      Stand (m.record e) .idle := hm.idle (.record m hq) (calm_record m he) rfl
  -- a withdrawing event: nothing stands after it
  have withdraw {e : Event G W} {e' : Exec G W} (he : e.withdraws = true) (hd : e.draws? = none)
      (hp : e.path? = none) (ha : e'.announcing? = none)
      (hs : ∀ x, e'.stands? = some x → x = none) (hi : e'.installing? = none) :
      Stand (m.record e) e' := by
    have hlatest : latestPath (m.record e).log = latestPath m.log := by
      rw [Mem.record_log, latestPath_cons, hp, Option.none_or]
    refine ⟨?_, fun i hsess => ?_, fun x hx => ?_, fun x hx => ?_, fun i g hgoal => ?_⟩
    · rw [hlatest, hm.latest, ha]; rfl
    · rw [hlatest]; exact hm.session i hsess
    · rw [Mem.record_log, standingGoal_cons, if_pos he, hd, hs x hx]
    · rw [hi] at hx; cases hx
    · rw [hlatest, Mem.record_log, pathSince_cons (by rw [hd]; exact nofun), hp]
      exact hm.goals i g hgoal
  cases h with
  | @followEmpty limits est fin net m =>
      have h₁ : Stand (m.newSession limits) .idle := by
        refine ⟨hm.latest, hm.session, nofun, by rintro _ ⟨⟩, fun i g hgoal => ?_⟩
        exact hm.goals i g (Mem.sessions_newSession_rec m limits i nofun (fun _ => id) hgoal)
      refine h₁.idle (.trans ?_ (.record _ rfl)) (calm_followEmpty m limits fin _) rfl
      split
      · exact (Tame.record _ rfl).trans (.record _ rfl)
      · exact .record _ rfl
  | follow hws | followOver hws => exact .follow hws _ rfl rfl rfl
  | stop | stopNone | cancelNavigation | cancelNone =>
      exact withdraw rfl rfl rfl rfl (by simp [Exec.stands?]) rfl
  | noDock =>
      split
      · exact record rfl rfl
      · exact hm
  | @dock ws fin net m m' e' h =>
      have ht : Tame m (m.record (.dockPlanned m.nextCall ws)) := .record _ rfl
      exact h.stand (record rfl rfl) (ht.memOk hmem) rfl (ht.goals.fresh (hg _ rfl))
  | @undock a env ws net m m' e' ha _ _ _ h =>
      have ht : Tame m (m.record (.undockPlanned a m.nextCall ws)) := .record _ rfl
      exact h.stand (record rfl rfl) (ht.memOk hmem) rfl (ht.goals.fresh (hg _ rfl))
  | undockReturns =>
      exact hm.idle ((Tame.setUndock _ _ _).trans (.record _ rfl)) ((Log.Grows.refl _).cons rfl) rfl

theorem Stand.start : Stand (navStart : State G W).mem navStart.exec where
  latest := rfl
  session := nofun
  stands := nofun
  installs := by rintro _ ⟨⟩
  goals := nofun

theorem Stand.step {s s' : State G W} {a : Action G W} (h : navStep s a = some s') (hs : NavInv s)
    (hm : Stand s.mem s.exec) : Stand s'.mem s'.exec := by
  have other {m' : Mem G W} (ht : Tame s.mem m') (hlog : Calm s.mem.log m'.log) :
      Stand m' s.exec := hm.tame ht hlog rfl (fun _ => id) (.inr rfl)
  cases navStep_moves h with
  | call c idle fresh => exact (callStep s.alive c s.mem).stand (idle ▸ hm) hs.nav.mem fresh
  | exec busy => exact (execStep s.alive busy s.mem).stand hm hs.nav
  | update =>
      have hu := updateStep s.update s.mem
      exact other hu.zenohStep.toTame hu.calm
  | recvStatus entries => exact hm
  | status k t at_k =>
      have ht := statusStep s.alive t s.mem
      exact other (ht.zenohStep (hs.status t (List.mem_of_getElem? at_k))).toTame ht.calm
  | recvFeedback msg idle =>
      refine other (.trans ?_ (.record _ rfl)) ((Log.Grows.refl _).cons rfl)
      exact .of_log (.of_log rfl le_rfl le_rfl) rfl rfl rfl id
  | feedback =>
      refine other (FeedbackThread.zenohStep s.alive s.feedback s.mem).toTame ?_
      rw [FeedbackThread.log]
      exact .refl _

theorem Stand.reach {P : State G W → Action G W → Prop} {s : State G W}
    (h : (navigation G W).Reach P s) : Stand s.mem s.exec :=
  h.invariant_of (I := fun s => Stand s.mem s.exec) (fun _ hs => NavInv.reach hs) .start
    fun _ _ _ _ hstep hs hm => hm.step hstep hs

end

/-! ### How a goal leaves its session -/

/-- The executor's next step is one that may take the goal out of session `i`. -/
def Exec.drops : Exec G W → SessionId → Bool
  | .invalidateOld _ old, i => old == i
  | .install _ i', i | .stopCancel i', i | .stopInvalidate i', i | .cancel i', i => i' == i
  | .fire _ _ (.enter c), i => c.path? == some i
  | _, _ => false

/-- A critical section of a session is in no other's way. -/
theorem goalId_modify_or {m : Mem G W} {i j : SessionId} {g : G}
    {f : NavigationSession G → NavigationSession G} (hg : (m.sessions i).goalId = some g) :
    ((m.modify j f).sessions i).goalId = some g ∨ j = i := by
  by_cases e : i = j
  · exact .inr e.symm
  · exact .inl (by rw [Mem.sessions_modify_of_ne _ _ _ e, hg])

/-- A closure takes a goal out of the session of its own path only, and when it is entered. -/
theorem ClosureStep.loses {alive : SessionId → Bool} {f : Firing} {f' : Option Firing}
    {m m' : Mem G W} (h : ClosureStep alive f m m' f') {i : SessionId} {g : G}
    (hg : (m.sessions i).goalId = some g) :
    (m'.sessions i).goalId = some g ∨ ∃ c, f = .enter c ∧ c.path? = some i := by
  cases h with
  | @enterPath k p fin m hk =>
      obtain ⟨n, kind⟩ := k
      cases hk
      split
      · exact (goalId_modify_or (m := m.record _) hg).imp_right fun e => ⟨_, rfl, congrArg some e⟩
      · exact .inl hg
  | @enterFailure p m =>
      split
      · exact (goalId_modify_or (m := m.record _) hg).imp_right fun e => ⟨_, rfl, congrArg some e⟩
      · exact .inl hg
  | enterDock | enterUndock | reset | reportFailed => exact .inl hg
  | reportArrived => split <;> exact .inl hg

theorem ExecStep.loses {alive : SessionId → Bool} {e e' : Exec G W} {m m' : Mem G W}
    (h : ExecStep alive e m m' e') {i : SessionId} {g : G}
    (hg : (m.sessions i).goalId = some g) :
    (m'.sessions i).goalId = some g ∨ e.drops i = true := by
  have drop {j : SessionId} {f : NavigationSession G → NavigationSession G} :
      ((m.modify j f).sessions i).goalId = some g ∨ (j == i) = true :=
    (goalId_modify_or hg).imp_right beq_iff_eq.mpr
  have enter {f : Firing} {m' : Mem G W} {j : PathJob G W} {k : Option SessionId}
      (h : (m'.sessions i).goalId = some g ∨ ∃ c, f = .enter c ∧ c.path? = some i) :
      (m'.sessions i).goalId = some g ∨ (Exec.fire j k f : Exec G W).drops i = true := by
    refine h.imp_right ?_
    rintro ⟨c, rfl, hc⟩
    exact beq_iff_eq.mpr hc
  cases h with
  | invalidateOld | install | stopInvalidate => exact drop
  | armSession => rw [goalId_modify rfl]; exact .inl hg
  | executePath h => rw [h.sessions]; exact .inl hg
  | accepted => rw [Mem.sessions_returnFrom]; exact .inl hg
  | notAccepted => rw [goalId_modify rfl]; exact .inl hg
  | notAcceptedSilent => rw [Mem.sessions_returnFrom, goalId_modify rfl]; exact .inl hg
  | fire h => exact enter (h.loses hg)
  | fired h => rw [Mem.sessions_returnFrom]; exact enter (h.loses hg)
  | stopCancel | cancel =>
      split
      · exact drop
      · exact .inl hg
  | _ => exact .inl hg

theorem CallStep.loses {alive : SessionId → Bool} {c : Call G W} {e' : Exec G W} {m m' : Mem G W}
    (h : CallStep alive c m m' e') (hm : MemOk m) {i : SessionId} {g : G}
    (hg : (m.sessions i).goalId = some g) : (m'.sessions i).goalId = some g := by
  -- the session made has a new name
  have hne : i ≠ m.nextSession := by
    obtain ⟨-, g', hp⟩ := (hm.sessions i).goal g hg
    exact (hm.goals.path_lt hp).ne
  have new (limits : List ℚ) : ((m.newSession limits).sessions i).goalId = some g := by
    rw [Mem.newSession_sessions, Function.update_of_ne hne, hg]
  cases h with
  | followEmpty => rw [Mem.record_sessions]; split <;> exact new _
  | follow | followOver => exact new _
  | noDock => split <;> exact hg
  | dock h | undock _ _ _ _ h => rw [h.sessions]; exact hg
  | _ => exact hg

theorem UpdateStep.loses {u u' : UpdateThread} {m m' : Mem G W} (h : UpdateStep u m m' u')
    {i : SessionId} {g : G} (hg : (m.sessions i).goalId = some g) :
    (m'.sessions i).goalId = some g := by
  cases h with
  | drainTake => rw [goalId_modify rfl]; exact hg
  | read | drainForward | takeFailure | replan => exact hg

theorem FeedbackThread.loses [DecidableEq G] {alive : SessionId → Bool} {t : FeedbackThread G}
    {m : Mem G W} {i : SessionId} {g : G} (hg : (m.sessions i).goalId = some g) :
    ((t.step alive m).1.sessions i).goalId = some g := by
  cases t with
  | store | index | buffer =>
      simp only [FeedbackThread.step]
      rw [goalId_modify rfl]
      exact hg
  | idle | lock | check | snapshot | estimate => exact hg

/-- **How a goal leaves its session**: by a step of the executor that drops it, with its terminal
status, or with a closure of the session's own path. -/
theorem Moves.loses [DecidableEq G] {s s' : State G W} {a : Action G W} (h : Moves s a s')
    (hs : NavInv s) {i : SessionId} {g : G} (hg : (s.mem.sessions i).goalId = some g) :
    (s'.mem.sessions i).goalId = some g ∨ a = .exec ∧ s.exec.drops i = true ∨
      (∃ st, .status i g st ∈ s'.mem.log ∧ st.terminal = true) ∨
      ∃ j c, .fire j (.enter c) ∈ s.status ∧ c.path? = some i := by
  cases h with
  | call c idle fresh => exact .inl ((callStep s.alive c s.mem).loses hs.nav.mem hg)
  | exec busy =>
      exact ((execStep s.alive busy s.mem).loses hg).imp_right fun hd => .inl ⟨rfl, hd⟩
  | update => exact .inl ((updateStep s.update s.mem).loses hg)
  | recvStatus | recvFeedback => exact .inl hg
  | status k t at_k =>
      have ht := statusStep s.alive t s.mem
      have hmem := List.mem_of_getElem? at_k
      dsimp only
      generalize (t.step s.alive s.mem).1 = m', (t.step s.alive s.mem).2 = t' at ht ⊢
      have fire {j : SessionId} {f : Firing} {f' : Option Firing}
          (h : ClosureStep s.alive f s.mem m' f') (hf : .fire j f ∈ s.status) :
          (m'.sessions i).goalId = some g ∨ (Action.status k : Action G W) = .exec ∧
            s.exec.drops i = true ∨ (∃ st, .status i g st ∈ m'.log ∧ st.terminal = true) ∨
            ∃ j c, .fire j (.enter c) ∈ s.status ∧ c.path? = some i := by
        rcases h.loses hg with hg | ⟨c, rfl, hc⟩
        · exact .inl hg
        · exact .inr (.inr (.inr ⟨j, c, hf, hc⟩))
      cases ht with
      | quiet => exact .inl hg
      | @silent i' entries g' st _ hg' hst hc =>
          split
          · rename_i hterm
            rcases goalId_modify_or (m := s.mem.record (.status i' g' st)) (j := i') hg
              with hg | rfl
            · exact .inl hg
            · cases hg.symm.trans hg'
              exact .inr (.inr (.inl ⟨st, List.mem_cons_self, hterm⟩))
          · exact .inl hg
      | @take i' entries g' st c _ hg' hst hc =>
          rcases goalId_modify_or (m := s.mem.record (.status i' g' st)) (j := i') hg with hg | rfl
          · exact .inl hg
          · cases hg.symm.trans hg'
            exact .inr (.inr (.inl ⟨st, List.mem_cons_self, terminal_of_closureFor hc⟩))
      | fire h => exact fire h hmem
      | fired h => exact fire h hmem
  | feedback => exact .inl (FeedbackThread.loses hg)

/-! ### When a goal comes to stand -/

theorem ExecStep.calm {alive : SessionId → Bool} {e e' : Exec G W} {m m' : Mem G W}
    (h : ExecStep alive e m m' e') : Calm m.log m'.log ∨ ∃ f, e = .executePath f := by
  cases h with
  | executePath h => exact .inr ⟨_, rfl⟩
  | armSession | handOver => exact .inl ((Log.Grows.refl _).cons rfl)
  | accepted => exact .inl (calm_returnFrom _ _)
  | @notAcceptedSilent j i m => exact .inl (calm_returnFrom _ (m.modify i .markDone))
  | fire h => exact .inl h.calm
  | fired h => exact .inl (h.calm.trans (calm_returnFrom _ _))
  | stopCancel | cancel => split <;> exact .inl (.refl _)
  | stopClear => exact .inl (((Log.Grows.refl _).cons rfl).cons rfl)
  | _ => exact .inl (.refl _)

theorem PathStep.standing {alive : SessionId → Bool} {r : PathRequest G W} {m m' : Mem G W}
    {e' : Exec G W} (h : PathStep alive r m m' e') : standingGoal m'.log = some r.net.goalId := by
  obtain ⟨k, hlog⟩ := h.draws
  rw [hlog.standing, standingGoal_cons]
  rfl

theorem CallStep.standing {alive : SessionId → Bool} {c : Call G W} {e' : Exec G W} {m m' : Mem G W}
    (h : CallStep alive c m m' e') :
    standingGoal m'.log = standingGoal m.log ∨ standingGoal m'.log = none ∨
      standingGoal m'.log = c.goalId? := by
  cases h with
  | @followEmpty limits est fin net m => exact .inl (calm_followEmpty m limits fin _).standing
  | @follow ws _ _ _ _ _ hws | @followOver ws _ _ _ _ _ _ hws =>
      obtain ⟨w, ws, rfl⟩ := List.exists_cons_of_ne_nil hws
      exact .inr (.inl rfl)
  | stop | stopNone | cancelNavigation | cancelNone => exact .inr (.inl rfl)
  | noDock => exact .inl (calm_record_if m rfl _).standing
  | dock h | undock _ _ _ _ h => exact .inr (.inr h.standing)
  | undockReturns => exact .inl (Calm.standing ((Log.Grows.refl _).cons rfl))

/-- A goal that stands after a step stood before it, or was drawn in it. -/
theorem Moves.standing [DecidableEq G] {s s' : State G W} {a : Action G W} (h : Moves s a s')
    (hs : NavInv s) {g : G} (hg : standingGoal s'.mem.log = some g) :
    standingGoal s.mem.log = some g ∨ s.mem.Fresh g := by
  cases h with
  | call c idle fresh =>
      rcases (callStep s.alive c s.mem).standing with e | e | e
      · exact .inl (e.symm.trans hg)
      · rw [hg] at e; cases e
      · exact .inr (fresh g (e.symm.trans hg))
  | exec busy =>
      have he := execStep s.alive busy s.mem
      rcases he.calm with hlog | ⟨f, hf⟩
      · exact .inl (hlog.standing.symm.trans hg)
      · have hnav := hs.nav.exec
        dsimp only at hg
        rw [hf] at hnav hg
        have hpath : standingGoal (executePath s.alive f.request s.mem).1.log =
            some f.net.goalId := (pathStep s.alive f.request s.mem).standing
        obtain rfl := Option.some.inj (hpath.symm.trans hg)
        exact .inr hnav.1.fresh
  | update => exact .inl ((updateStep s.update s.mem).calm.standing.symm.trans hg)
  | recvStatus entries => exact .inl hg
  | status k t at_k => exact .inl ((statusStep s.alive t s.mem).calm.standing.symm.trans hg)
  | recvFeedback msg idle =>
      have hlog : Calm s.mem.log (.feedback s.mem.nextReceipt msg :: s.mem.log) :=
        (Log.Grows.refl _).cons rfl
      exact .inl (hlog.standing.symm.trans hg)
  | feedback =>
      dsimp only at hg
      rw [FeedbackThread.log] at hg
      exact .inl hg

/-! ### What is known of a goal -/

/-- The status that an event says was found for goal `g`. -/
def Event.status? [DecidableEq G] (g : G) : Event G W → Option GoalStatus
  | .status _ g' st => if g' = g then some st else none
  | _ => none

/-- `status_callback` has found goal `g` with a status of which `Φ` holds. -/
def FoundWith [DecidableEq G] (Φ : GoalStatus → Bool) (h : List (Event G W)) (g : G) : Prop :=
  ∃ e ∈ h, ∃ st ∈ e.status? g, Φ st = true

/-- The callback that was given with goal `g`, if the event draws it. -/
def Event.requester? [DecidableEq G] (g : G) : Event G W → Option Completion
  | .goal _ g' k => if g' = g then k else none
  | _ => none

/-- Goal `g` was handed to `send_follow_path_goal`. -/
def Handed [DecidableEq G] (h : List (Event G W)) (g : G) : Prop := ∃ e ∈ h, e.sends g = true

section

variable [DecidableEq G]

instance (Φ : GoalStatus → Bool) (h : List (Event G W)) (g : G) : Decidable (FoundWith Φ h g) :=
  inferInstanceAs (Decidable (∃ e ∈ h, ∃ st ∈ e.status? g, Φ st = true))

instance (h : List (Event G W)) (g : G) : Decidable (Handed h g) :=
  inferInstanceAs (Decidable (∃ e ∈ h, e.sends g = true))

theorem foundWith_iff {Φ : GoalStatus → Bool} {h : List (Event G W)} {g : G} :
    FoundWith Φ h g ↔ ∃ i st, .status i g st ∈ h ∧ Φ st = true := by
  constructor
  · rintro ⟨e, he, st, hst, hΦ⟩
    cases e with
    | status i g' st' =>
        simp only [Event.status?] at hst
        split at hst
        · rename_i hg
          cases hst
          exact ⟨i, st, hg ▸ he, hΦ⟩
        · cases hst
    | _ => cases hst
  · rintro ⟨i, st, hm, hΦ⟩
    exact ⟨_, hm, st, by simp [Event.status?], hΦ⟩

theorem handed_iff {h : List (Event G W)} {g : G} :
    Handed h g ↔ ∃ c ws lanes, .sent c g ws lanes ∈ h := by
  constructor
  · rintro ⟨e, he, hg⟩
    cases e with
    | sent c g' ws lanes =>
        obtain rfl : g' = g := of_decide_eq_true hg
        exact ⟨c, ws, lanes, he⟩
    | _ => cases hg
  · rintro ⟨c, ws, lanes, hm⟩
    exact ⟨_, hm, decide_eq_true rfl⟩

theorem requester?_iff {h : List (Event G W)} {g : G} {k : Completion} :
    (∃ e ∈ h, k ∈ e.requester? g) ↔ ∃ c, .goal c g (some k) ∈ h := by
  constructor
  · rintro ⟨e, he, hk⟩
    cases e with
    | goal c g' k' =>
        simp only [Event.requester?] at hk
        split at hk
        · rename_i hg
          cases hk
          exact ⟨c, hg ▸ he⟩
        · cases hk
    | _ => cases hk
  · rintro ⟨c, hm⟩
    exact ⟨_, hm, by simp [Event.requester?]⟩

theorem FoundWith.mono {Φ : GoalStatus → Bool} {h h' : List (Event G W)} (hs : h <:+ h') {g : G}
    (hf : FoundWith Φ h g) : FoundWith Φ h' g :=
  let ⟨e, he, hst⟩ := hf
  ⟨e, hs.subset he, hst⟩

theorem Handed.mono {h h' : List (Event G W)} (hs : h <:+ h') {g : G} (hg : Handed h g) :
    Handed h' g :=
  let ⟨e, he, hg⟩ := hg
  ⟨e, hs.subset he, hg⟩

theorem LegsInv.drawn {s : State G W} (hs : LegsInv s) {g : G} (hg : Handed s.mem.log g) :
    ∃ c k, .goal c g k ∈ s.mem.log := by
  obtain ⟨c, ws, lanes, hm⟩ := handed_iff.mp hg
  obtain ⟨k, hk, -⟩ := hs.sent.goal hm
  exact ⟨c, k, hk⟩

end

/-! ### Handed over, or about to be -/

/-- Goal `g` has been handed over, or is in the executor's next step. -/
def State.Passes [DecidableEq G] (s : State G W) (g : G) : Prop :=
  Handed s.mem.log g ∨ ∃ j i, s.exec = .sendGoal j i ∧ j.request.net.goalId = g

/-- A goal about to be handed over is in its session. -/
theorem Moves.sendGoal [DecidableEq G] {s s' : State G W} {a : Action G W} (h : Moves s a s')
    {j : PathJob G W} {i : SessionId} (he : s'.exec = .sendGoal j i) :
    s.exec = .sendGoal j i ∨ (s'.mem.sessions i).goalId = some j.request.net.goalId := by
  cases h with
  | call c idle fresh =>
      have hc := callStep s.alive c s.mem
      dsimp only at he
      generalize (c.start s.alive s.mem).1 = m', (c.start s.alive s.mem).2 = e' at hc he
      cases hc with
      | dock h | undock _ _ _ _ h => cases h <;> cases he
      | _ => cases he
  | exec busy =>
      have hc := execStep s.alive busy s.mem
      dsimp only at he ⊢
      generalize (s.exec.step s.alive s.mem).1 = m', (s.exec.step s.alive s.mem).2 = e' at hc he ⊢
      generalize s.exec = e, s.mem = m at hc
      cases hc with
      | executePath h => cases h <;> cases he
      | install => cases he; rw [Mem.sessions_modify_self]; exact .inr rfl
      | _ => cases he
  | update | recvStatus | status | recvFeedback | feedback => exact .inl he

theorem Moves.passes [DecidableEq G] {s s' : State G W} {a : Action G W} (h : Moves s a s')
    {g : G} (hg : s'.Passes g) : s.Passes g ∨ ∃ i, (s'.mem.sessions i).goalId = some g := by
  rcases hg with hg | ⟨j, i, hj, rfl⟩
  · obtain ⟨c, ws, lanes, hm⟩ := handed_iff.mp hg
    by_cases hsend : ∃ j i, s.exec = .sendGoal j i ∧ a = .exec
    · obtain ⟨j, i, hj, rfl⟩ := hsend
      cases h with
      | exec busy =>
          dsimp only at hm
          rw [hj] at hm
          rcases List.mem_cons.mp hm with e | hm
          · injection e with _ hgoal
            exact .inl (.inr ⟨j, i, hj, hgoal.symm⟩)
          · exact .inl (.inl (handed_iff.mpr ⟨c, ws, lanes, hm⟩))
    · have hstill := h.still fun j i hj ha => hsend ⟨j, i, hj, ha⟩
      exact .inl (.inl (handed_iff.mpr ⟨c, ws, lanes, hstill.grows.back rfl hm⟩))
  · rcases h.sendGoal hj with hj | hg
    · exact .inl (.inr ⟨j, i, hj, rfl⟩)
    · exact .inr ⟨i, hg⟩

/-- A goal passed on has been drawn. -/
theorem State.Passes.drawn [DecidableEq G] {s : State G W} (hs : LegsInv s) {g : G}
    (hg : s.Passes g) : ∃ c k, .goal c g k ∈ s.mem.log := by
  rcases hg with hg | ⟨j, i, hj, rfl⟩
  · exact hs.drawn hg
  · have hexec := hs.nav.nav.exec
    rw [hj] at hexec
    exact ⟨_, _, hexec.1.goal⟩

/-! ### A goal that is tracked -/

/-- The entries a status callback has still to look through. -/
def StatusThread.entries : StatusThread G → StatusList G
  | .lock entries | .process _ entries => entries
  | .fire _ _ | .done => []

/-- The entries status callback `k` has still to look through. -/
def State.entries (s : State G W) (k : Nat) : StatusList G :=
  (s.status[k]?).elim [] StatusThread.entries

/-- In `P`-runs goal `g` leaves its session, while it stands, only with `D`. -/
structure Tracked [DecidableEq G] (P : State G W → Action G W → Prop) (g : G)
    (D : List (Event G W) → Prop) : Prop where
  orderly : ∀ {s a}, P s a → Orderly s a
  mono : ∀ {h h' : List (Event G W)}, h <:+ h' → D h → D h'
  ended : ∀ {h i st}, .status i g st ∈ h → st.terminal = true → D h
  armed : ∀ {s i}, (navigation G W).Reach P s → (s.mem.sessions i).goalId = some g →
    Unarmed (s.mem.sessions i) → D s.mem.log
  fired : ∀ {s s' : State G W} {j i c}, (navigation G W).Reach P s → s.exec = .fire j i (.enter c) →
    j.request.net.goalId = g → Moves s .exec s' → D s'.mem.log

/-- Status callback `k` is on its way with this message, or `E`. -/
def Carries (k : Nat) (entries : StatusList G) (g : G)
    (D E : List (Event G W) → Prop) (s : State G W) : Prop :=
  E s.mem.log ∨ s.status[k]? = some (.lock entries) ∨
    ∃ i, s.status[k]? = some (.process i entries) ∧
      (standingGoal s.mem.log = some g → (s.mem.sessions i).goalId = some g ∨ D s.mem.log)

/-- A status callback stays where it is, or takes its own next step. -/
theorem Moves.waiting [DecidableEq G] {s s' : State G W} {a : Action G W} (h : Moves s a s')
    {k : Nat} {t : StatusThread G} (hk : s.status[k]? = some t) :
    s'.status[k]? = some t ∨ a = .status k := by
  cases h with
  | call | exec | update | recvFeedback | feedback => exact .inl hk
  | recvStatus entries =>
      refine .inl ?_
      rw [List.getElem?_append_left (List.getElem?_eq_some_iff.mp hk).1, hk]
  | status k' t' at_k =>
      by_cases e : k' = k
      · exact .inr (by rw [e])
      · exact .inl (by rw [List.getElem?_set_ne e, hk])

section

variable [DecidableEq G] {P : State G W → Action G W → Prop} {g : G}
  {D : List (Event G W) → Prop} (T : Tracked P g D)

include T

/-- Where the goal in a session still stands after a step, it is still there, or `D`. -/
theorem Tracked.kept {s s' : State G W} {a : Action G W} (hs : (navigation G W).Reach P s)
    (h : navStep s a = some s') {i : SessionId} (hg : (s.mem.sessions i).goalId = some g)
    (hst : standingGoal s'.mem.log = some g) :
    (s'.mem.sessions i).goalId = some g ∨ D s'.mem.log := by
  have hm := navStep_moves h
  have hnav := NavInv.reach hs
  have hends := (EndsInv.reach hs).ends
  have hstand := (Stand.reach hs).stands
  have hbefore : standingGoal s.mem.log = some g := by
    refine (hm.standing hnav hst).resolve_right fun hf => ?_
    obtain ⟨c, k, hc⟩ := hnav.drawn hg
    exact Mem.fresh_iff.mp hf c k hc
  rcases hm.loses hnav hg with hg' | ⟨rfl, hd⟩ | ⟨st, hfound, hterm⟩ | ⟨j, c, hfire, hc⟩
  · exact .inl hg'
  · cases he : s.exec with
    | invalidateOld f old | stopInvalidate i' | stopCancel i' | cancel i' =>
        have := hstand none (by rw [he]; rfl)
        rw [hbefore] at this
        cases this
    | install j i' =>
        have hj := hstand _ (by rw [he]; rfl)
        obtain rfl := Option.some.inj (hj.symm.trans hbefore)
        exact absurd hg ((hends.ready j i' he).1 i)
    | fire j i' f =>
        cases f with
        | enter c =>
            have hj := hstand _ (by rw [he]; rfl)
            exact .inr (T.fired hs he (Option.some.inj (hj.symm.trans hbefore)) hm)
        | reset t | report t => rw [he] at hd; cases hd
    | _ => rw [he] at hd; cases hd
  · exact .inr (T.ended hfound hterm)
  · -- the closure was taken with a terminal status, which left the session unarmed
    obtain ⟨c', htaken, hof⟩ := hnav.status _ hfire
    cases hof
    obtain rfl := htaken.path i hc
    obtain ⟨g', st, hstatus, hterm⟩ := htaken.status
    exact .inr (T.mono (hm.suffix hnav) (T.armed hs hg ((hnav.nav.mem.ended hstatus).2 hterm)))

/-- A goal that stands and was handed over is in a session, or `D`. -/
theorem Tracked.installed {s : State G W} (hs : (navigation G W).Reach P s) (hp : s.Passes g)
    (hst : standingGoal s.mem.log = some g) :
    (∃ i, (s.mem.sessions i).goalId = some g) ∨ D s.mem.log := by
  refine hs.invariant_of (I := fun s => s.Passes g → standingGoal s.mem.log = some g →
    (∃ i, (s.mem.sessions i).goalId = some g) ∨ D s.mem.log) (J := (navigation G W).Reach P)
    (fun _ => id) (fun _ hst => by cases hst) ?_ hp hst
  intro s a s' hP hstep hs ih hp hst
  have hm := navStep_moves hstep
  rcases hm.passes hp with hp | hg
  · have hbefore : standingGoal s.mem.log = some g := by
      refine (hm.standing (NavInv.reach hs) hst).resolve_right fun hf => ?_
      obtain ⟨c, k, hc⟩ := hp.drawn (LegsInv.reach hs)
      exact Mem.fresh_iff.mp hf c k hc
    rcases ih hp hbefore with ⟨i, hg⟩ | hD
    · exact (T.kept hs hstep hg hst).imp_left fun hg => ⟨i, hg⟩
    · exact .inr (T.mono (hm.suffix (NavInv.reach hs)) hD)
  · exact .inl hg

theorem Tracked.solo {s : State G W} (hs : (navigation G W).Reach P s) : SoloInv s :=
  hs.invariant .start fun _ _ _ hP hstep hs => hs.step (T.orderly hP) hstep

/-- A goal that stands and was handed over is in the session `session_wp_` locks, or `D`. -/
theorem Tracked.locked {s : State G W} (hs : (navigation G W).Reach P s)
    (hh : Handed s.mem.log g) (hst : standingGoal s.mem.log = some g) :
    (∃ i, (s.mem.sessions i).goalId = some g ∧ s.mem.lock s.alive = some i) ∨ D s.mem.log := by
  rcases T.installed hs (.inl hh) hst with ⟨i, hg⟩ | hD
  swap
  · exact .inr hD
  have hstand := Stand.reach hs
  have busy {x : Option G} (hx : s.exec.stands? = some x) : x = some g :=
    (hstand.stands x hx).symm.trans hst
  rcases (T.solo hs).solo.armed i with hu | hsess | ⟨f, he⟩
  · exact .inr (T.armed hs hg hu)
  · refine .inl ⟨i, hg, Mem.lock_eq_some.mpr ⟨?_, State.alive_iff.mpr (.inl hsess)⟩⟩
    -- no path is being announced while a goal stands
    have ha : s.exec.announcing? = none := by
      cases he : s.exec with
      | invalidateOld | armSession | setSession =>
          have := busy (x := none) (by rw [he]; rfl)
          cases this
      | _ => rfl
    have := hstand.latest
    rw [ha, Option.none_or, hstand.session i hsess] at this
    exact this.symm
  · have := busy (x := none) (by rw [he]; rfl)
    cases this

/-- The callback looks through its message while the goal still stands, and finds it. -/
theorem Tracked.carries {E : List (Event G W) → Prop}
    (mono : ∀ {h h' : List (Event G W)}, h <:+ h' → E h → E h') {s s' : State G W}
    {a : Action G W} (hs : (navigation G W).Reach P s) (h : navStep s a = some s')
    (hh : Handed s.mem.log g) {k : Nat} {entries : StatusList G} {st : GoalStatus}
    (hst : entries.find g = some st) (found : ∀ h i, .status i g st ∈ h → E h)
    (heeded : a = .status k → s.entries k = entries →
      E s.mem.log ∨ standingGoal s.mem.log = some g ∧ (D s.mem.log → E s.mem.log))
    (hc : Carries k entries g D E s) : Carries k entries g D E s' := by
  have hm := navStep_moves h
  have hnav := NavInv.reach hs
  have hlog := hm.suffix hnav
  rcases hc with hE | hk | ⟨i, hk, hg⟩
  · exact .inl (mono hlog hE)
  · rcases hm.waiting hk with hk' | rfl
    · exact .inr (.inl hk')
    · rcases heeded rfl (by simp [State.entries, hk, StatusThread.entries]) with
        hE | ⟨hstands, hDE⟩
      · exact .inl (mono hlog hE)
      · rcases T.locked hs hh hstands with ⟨i, hg, hlock⟩ | hD
        · cases hm with
          | status _ t at_k =>
              cases hk.symm.trans at_k
              have hlt : k < s.status.length := (List.getElem?_eq_some_iff.mp hk).1
              refine .inr (.inr ⟨i, ?_, fun _ => .inl ?_⟩)
              · simp [StatusThread.step, hlock, hlt]
              · simpa [StatusThread.step] using hg
        · exact .inl (mono hlog (hDE hD))
  · rcases hm.waiting hk with hk' | rfl
    · refine .inr (.inr ⟨i, hk', fun hstands => ?_⟩)
      have hbefore : standingGoal s.mem.log = some g := by
        refine (hm.standing hnav hstands).resolve_right fun hf => ?_
        obtain ⟨c, κ, hc⟩ := (LegsInv.reach hs).drawn hh
        exact Mem.fresh_iff.mp hf c κ hc
      rcases hg hbefore with hg | hD
      · exact T.kept hs h hg hstands
      · exact .inr (T.mono hlog hD)
    · rcases heeded rfl (by simp [State.entries, hk, StatusThread.entries]) with
        hE | ⟨hstands, hDE⟩
      · exact .inl (mono hlog hE)
      · rcases hg hstands with hg | hD
        · have hx : s.finds k = some ⟨i, g, st⟩ := State.finds_eq_some.mpr ⟨entries, hk, hg, hst⟩
          exact .inl (found _ i (hm.finds hx).1)
        · exact .inl (mono hlog (hDE hD))

/-- **A message that reports a goal resolves it.**  Let the message report `st` of a goal handed
over.  If that entry gives `E`, and whenever the callback steps with the message the goal stands
and `D` gives `E`, or `E` already, then `E` when the callback is done. -/
theorem Tracked.resolved {E : List (Event G W) → Prop}
    (mono : ∀ {h h' : List (Event G W)}, h <:+ h' → E h → E h') {s t : State G W}
    {as : List (Action G W)} (hs : (navigation G W).Reach P s) (hr : (navigation G W).Run P s as t)
    {k : Nat} {entries : StatusList G} {st : GoalStatus}
    (hk : s.status[k]? = some (.lock entries)) (hst : entries.find g = some st)
    (found : ∀ h i, .status i g st ∈ h → E h) (hh : Handed s.mem.log g)
    (heeded : ∀ u, (navigation G W).Reach P u → P u (.status k) → u.entries k = entries →
      Handed u.mem.log g →
      E u.mem.log ∨ standingGoal u.mem.log = some g ∧ (D u.mem.log → E u.mem.log))
    (hdone : t.status[k]? = some .done) : E t.mem.log := by
  obtain ⟨-, -, hc⟩ := hr.preserves
    (I := fun u => (navigation G W).Reach P u ∧ Handed u.mem.log g ∧ Carries k entries g D E u)
    (fun u a u' hP hstep ⟨hu, hh, hc⟩ => ⟨hu.step hP hstep,
      hh.mono ((navStep_moves hstep).suffix (NavInv.reach hu)),
      T.carries mono hu hstep hh hst found (fun ha he => heeded u hu (ha ▸ hP) he hh) hc⟩)
    ⟨hs, hh, .inr (.inl hk)⟩
  rcases hc with hE | hk' | ⟨i, hk', -⟩
  · exact hE
  · rw [hdone] at hk'; cases hk'
  · rw [hdone] at hk'; cases hk'

end

end EgbFleet
