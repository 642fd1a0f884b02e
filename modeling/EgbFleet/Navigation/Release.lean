import EgbFleet.Navigation.Terminal
import EgbFleet.Navigation.Undocking

/-!
# Navigation — the callback of a released action

The undock action passes `execute_path` a callback that captures the action itself.  A session
keeps it until the robot's status message or an `invalidate`; `RobotState` releases the action as
soon as `update_action` returns `FAILED`.  When the action's 60 s run out while it is navigating,
`handle_navigating` returns `FAILED` and leaves the session as it is.

`released_forgotten`: if, whenever action `a` runs out of time, status messages and calls have taken
its goal out of its session already (`Withdraws a`), then once it has returned `FAILED` no session
holds its callback or its goal, and no thread ever calls the callback.  Such a goal is out of every
session that is alive, and its callback on no thread (`Ousted.withdrawn`); and nothing less will do
(`forgotten_iff`).  `released_invoked`: the callback is called on the released action.
-/

namespace EgbFleet

variable {G W : Type}

/-! ### Forgotten -/

/-- Nothing is left of action `a`: no session holds its callback or its goal, no thread is about to
run the callback, and it has not been called. -/
structure Forgotten (s : State G W) (a : ActionId) : Prop where
  callbacks : ∀ i, s.alive i = true → ∀ k, (s.mem.sessions i).completionCallback = some k →
    k.kind ≠ .undock a
  goals : ∀ i, s.alive i = true → ∀ g, UndockGoal s.mem.log a g → (s.mem.sessions i).goalId ≠ some g
  firings : ∀ f ∈ s.firings, f.completes? ≠ some a
  uninvoked : ∀ k, .invoked (.completion k) ∈ s.mem.log → k.kind ≠ .undock a

/-- What makes a failed action forgotten, in this state and in those that follow. -/
structure Dropped (s : State G W) (a : ActionId) : Prop where
  state : (s.mem.undock a).state = .failed
  navCompleted : (s.mem.undock a).navCompleted = false
  goals : ∀ i, s.alive i = true → ∀ g, UndockGoal s.mem.log a g → (s.mem.sessions i).goalId ≠ some g
  status : ∀ t ∈ s.status, t.Fires fun _ f => f.completes? ≠ some a

theorem Firing.completes?_eq_some {f : Firing} {a : ActionId} :
    f.completes? = some a ↔ ∃ k, f = .enter (.completion k) ∧ k.kind = .undock a := by
  constructor
  · intro h
    rcases f with (⟨c, _ | _ | b⟩ | _) | _ | _
    · cases h
    · cases h
    · cases h; exact ⟨_, rfl, rfl⟩
    · cases h
    · cases h
    · cases h
  · rintro ⟨⟨c, kind⟩, rfl, ⟨⟩⟩
    rfl

/-- A session with the action's callback holds the action's goal. -/
theorem MemOk.undockGoal {m : Mem G W} (hm : MemOk m) {i : SessionId} {k : Completion}
    {a : ActionId} (hk : (m.sessions i).completionCallback = some k) (hkind : k.kind = .undock a) :
    ∃ g, UndockGoal m.log a g ∧ (m.sessions i).goalId = some g := by
  obtain ⟨g, hg⟩ := Option.ne_none_iff_exists'.mp ((hm.sessions i).completion k hk)
  exact ⟨g, ⟨k.call, k, hm.goal_of_completion hg hk, hkind⟩, hg⟩

/-- The executor runs an action's callback only inside the action's own `execute_path`. -/
theorem NavInv.exec_completes {s : State G W} (hs : NavInv s) {f : Firing}
    (hf : s.exec.firing? = some f) {a : ActionId} (ha : f.completes? = some a) :
    s.exec.undocks? = some a := by
  obtain ⟨m, e, u, st, fb⟩ := s
  cases e with
  | fire j i f' =>
      cases hf
      obtain ⟨κ, rfl, hκ⟩ := Firing.completes?_eq_some.mp ha
      obtain ⟨hj, k, hk, hof⟩ := hs.nav.exec
      cases hof
      exact hj.action hk hκ
  | _ => cases hf

/-- An action that has failed is not being planned. -/
theorem Dropped.idle {s : State G W} {a : ActionId} (hd : Dropped s a) (hu : UndockOk s a) :
    s.exec.undocks? ≠ some a := fun hr => by
  have := hu.running hr
  rw [hd.state] at this
  cases this

theorem Dropped.forgotten {s : State G W} {a : ActionId} (hd : Dropped s a) (hs : NavInv s)
    (hu : UndockOk s a) : Forgotten s a where
  callbacks := fun i hi k hk hkind => by
    obtain ⟨g, hg, hgoal⟩ := hs.nav.mem.undockGoal hk hkind
    exact hd.goals i hi g hg hgoal
  goals := hd.goals
  firings := fun f hf ha => by
    rcases List.mem_append.mp hf with hf | hf
    · exact hd.idle hu (hs.exec_completes (Option.mem_toList.mp hf) ha)
    · obtain ⟨t, ht, hf⟩ := List.mem_filterMap.mp hf
      have hfires := hd.status t ht
      cases t with
      | fire i f' => cases hf; exact hfires ha
      | lock _ | process _ _ | done => cases hf
  uninvoked := fun k hk hkind => by
    have := hu.invoked k hk hkind
    rw [hd.navCompleted] at this
    cases this

theorem UndockMove.goal {s s' : State G W} {act : Action G W} {a : ActionId}
    (h : UndockMove a s s' act) (hp : (s.mem.undock a).state ≠ .planning) (hu : UndockOk s a)
    {g : G} (hg : UndockGoal s'.mem.log a g) : UndockGoal s.mem.log a g := by
  obtain ⟨c, k, hm, hk⟩ := hg
  refine ⟨c, k, ?_, hk⟩
  cases h with
  | aside mem runs => exact mem.1.back (about_goal hk) hm
  | plans state => exact absurd state hp
  | navigates running => exact absurd (hu.running running) hp
  | invoked _ _ log => rw [log] at hm; exact (List.mem_cons.mp hm).resolve_left nofun
  | returns _ _ _ mem => rw [mem] at hm; exact (List.mem_cons.mp hm).resolve_left nofun

theorem Dropped.step [DecidableEq G] {s s' : State G W} {act : Action G W} {a : ActionId}
    (hd : Dropped s a) (h : Moves s act s') (hs : NavInv s) (hu : UndockOk s a) :
    Dropped s' a := by
  have hmove := h.undock hs a
  have hp : (s.mem.undock a).state ≠ .planning := by rw [hd.state]; nofun
  have unfired {i : SessionId} {f : Firing} (ht : .fire i f ∈ s.status) :
      f.completes? ≠ some a := hd.status (.fire i f) ht
  obtain ⟨hstate, hnav⟩ : (s'.mem.undock a).state = .failed ∧
      (s'.mem.undock a).navCompleted = false := by
    cases hmove with
    | aside mem runs => rw [mem.2]; exact ⟨hd.state, hd.navCompleted⟩
    | plans state => exact absurd state hp
    | navigates running => exact absurd running (hd.idle hu)
    | invoked fires kind =>
        exact absurd (Firing.completes?_eq_some.mpr ⟨_, rfl, kind⟩) (unfired fires)
    | returns _ _ returns mem =>
        rw [mem]
        cases returns with
        | failed => exact ⟨by simp, by simp [hd.navCompleted]⟩
        | gaveUp h | started h | arrived h | timedOut h | waits h | completed h =>
            rw [hd.state] at h; cases h
  refine ⟨hstate, hnav, fun i hi g hg hgoal => ?_, h.fires hd.status (fun _ _ hf => hf) ?_ ?_⟩
  · have hg' := hmove.goal hp hu hg
    rcases h.goalId hs hgoal with hgoal | ⟨rfl, j, hj, -, hgj⟩
    · rcases h.alive hi with hi | ⟨rfl, -⟩
      · exact hd.goals i hi g hg' hgoal
      · -- the name of the next session is not in use
        obtain ⟨-, g', hpath⟩ := (hs.nav.mem.sessions _).goal g hgoal
        exact absurd (hs.nav.mem.goals.path_lt hpath) (Nat.lt_irrefl _)
    · obtain ⟨c, k, hm, hk⟩ := hg'
      have hexec := hs.nav.exec
      rw [hj] at hexec
      have hjob := (hs.nav.mem.goals.goal_inj (hgj ▸ hexec.1.goal) hm).2
      exact hd.idle hu (by rw [hj]; exact hexec.1.action hjob hk)
  · -- a closure that is taken comes from a session that holds the action's goal
    rintro k x c rfl hx hc - ha
    obtain ⟨entries, hk, hg, -⟩ := State.finds_eq_some.mp hx
    obtain ⟨κ, hκ, hkind⟩ := Firing.completes?_eq_some.mp ha
    cases hκ
    obtain ⟨-, hcb⟩ := completion_of_closureFor hc
    have hi : s.alive x.session = true :=
      State.alive_iff.mpr (.inr (.inr (.inr (.inl ⟨_, List.mem_of_getElem? hk, by
        simp [StatusThread.holds]⟩))))
    obtain ⟨g, hg, hgoal⟩ := hs.nav.mem.undockGoal hcb hkind
    exact hd.goals _ hi g hg hgoal
  · rintro k i f f' rfl hf - ha
    obtain ⟨κ, rfl, -⟩ := Firing.completes?_eq_some.mp ha
    generalize s'.mem = m' at hf
    cases hf

/-! ### The condition -/

/-- Event `e` draws `g` for action `a`. -/
def Event.undocks [DecidableEq G] (a : ActionId) (g : G) : Event G W → Bool
  | .goal _ g' (some k) => g' = g ∧ k.kind = .undock a
  | _ => false

theorem undockGoal_iff [DecidableEq G] {h : List (Event G W)} {a : ActionId} {g : G} :
    UndockGoal h a g ↔ ∃ e ∈ h, e.undocks a g = true := by
  constructor
  · rintro ⟨c, k, hm, hk⟩
    exact ⟨_, hm, by simp [Event.undocks, hk]⟩
  · rintro ⟨e, hm, he⟩
    cases e with
    | goal c g' k =>
        cases k with
        | none => cases he
        | some k =>
            obtain ⟨rfl, hk⟩ := of_decide_eq_true he
            exact ⟨c, k, hm, hk⟩
    | _ => cases he

instance [DecidableEq G] (h : List (Event G W)) (a : ActionId) (g : G) :
    Decidable (UndockGoal h a g) :=
  decidable_of_iff _ undockGoal_iff.symm

/-- Action `a` is navigating, has not been told that it has arrived, and its 60 s are over. -/
def TimesOut (s : State G W) (a : ActionId) (env : UndockEnv W) : Prop :=
  (s.mem.undock a).state = .navigating ∧ (s.mem.undock a).navCompleted = false ∧
    env.timedOut = true

instance (s : State G W) (a : ActionId) (env : UndockEnv W) : Decidable (TimesOut s a env) :=
  inferInstanceAs (Decidable (_ ∧ _ ∧ _))

/-- What has taken goal `g` out of its session: the status message of its failure; or another
goal, a `stop` or a `cancel_navigation`, or the end of the session itself; or a path given since,
where no thread holds a session older than that path. -/
def Ousted [DecidableEq G] (s : State G W) (g : G) : Prop :=
  FoundWith GoalStatus.failed s.mem.log g ∨
    (standingGoal s.mem.log ≠ some g ∨ s.mem.lock s.alive = none) ∧
      (pathSince g s.mem.log = true →
        ∀ i < s.mem.nextSession, s.alive i = true → s.mem.sessionWp = some i)

/-- When action `a` runs out of time, its goal was not found `SUCCEEDED` and is out of its
session. -/
def Withdraws [DecidableEq G] (a : ActionId) (s : State G W) : Action G W → Prop
  | .call (.updateAction b env _) => b = a → TimesOut s a env →
      ∀ e ∈ s.mem.log, ∀ g ∈ e.draws?, UndockGoal s.mem.log a g →
        ¬ FoundWith (fun st => st = .succeeded) s.mem.log g ∧ Ousted s g
  | _ => True

instance [DecidableEq G] (s : State G W) (g : G) : Decidable (Ousted s g) :=
  inferInstanceAs (Decidable (_ ∨ (_ ∨ _) ∧ (_ → _)))

instance [DecidableEq G] (a : ActionId) (s : State G W) : ∀ act, Decidable (Withdraws a s act)
  | .call (.updateAction b env _) =>
      inferInstanceAs (Decidable (b = a → TimesOut s a env →
        ∀ e ∈ s.mem.log, ∀ g ∈ e.draws?, UndockGoal s.mem.log a g →
          ¬ FoundWith (fun st => st = .succeeded) s.mem.log g ∧ Ousted s g))
  | .call (.followNewPath _ _ _ _ _) | .call .stop | .call (.dock _ _ _) | .call .cancelNavigation
  | .exec | .update | .recvStatus _ | .status _ | .recvFeedback _ | .feedback =>
      inferInstanceAs (Decidable True)

/-! ### A goal that no longer stands -/

/-- The executor's next step puts another goal in session `i`, or takes its goal out. -/
def Exec.takes : Exec G W → SessionId → Bool
  | .install _ i', i | .stopCancel i', i | .cancel i', i => i' == i
  | _, _ => false

/-- The goal in the session of the latest path stands, or is about to be taken out. -/
def StandsOrTaken (s : State G W) : Prop :=
  ∀ i g, s.alive i = true → (s.mem.sessions i).goalId = some g →
    latestPath s.mem.log = some i → standingGoal s.mem.log = some g ∨ s.exec.takes i = true

theorem PathStep.takes {alive : SessionId → Bool} {r : PathRequest G W} {m m' : Mem G W}
    {e' : Exec G W} (h : PathStep alive r m m' e') {i : SessionId} (hi : m.lock alive = some i) :
    e'.takes i = true := by
  cases h with
  | locked hi' => exact beq_iff_eq.mpr (Option.some.inj (hi'.symm.trans hi))
  | lost hi' | lostSilent hi' => rw [hi] at hi'; cases hi'

theorem CallStep.takes {alive : SessionId → Bool} {c : Call G W} {e' : Exec G W} {m m' : Mem G W}
    (h : CallStep alive c m m' e') {i : SessionId} (hi : m.lock alive = some i) :
    c.follows = true ∨ Calm m.log m'.log ∨ e'.takes i = true := by
  have same {i' : SessionId} (hi' : m.lock alive = some i') : (i' == i) = true :=
    beq_iff_eq.mpr (Option.some.inj (hi'.symm.trans hi))
  have none {P : Prop} (hi' : m.lock alive = none) : P := by rw [hi] at hi'; cases hi'
  cases h with
  | @followEmpty limits est fin net m => exact .inr (.inl (calm_followEmpty m limits fin _))
  | follow hws | followOver hws => exact .inl (Call.follows_of_ne_nil hws)
  | stop hi' | cancelNavigation hi' => exact .inr (.inr (same hi'))
  | stopNone hi' | cancelNone hi' => exact none hi'
  | noDock => exact .inr (.inl (calm_record_if m rfl _))
  | dock h | undock _ _ _ _ h => exact .inr (.inr (h.takes hi))
  | undockReturns => exact .inr (.inl ((Log.Grows.refl _).cons rfl))

/-- A path with waypoints becomes the latest one. -/
theorem CallStep.latest {alive : SessionId → Bool} {c : Call G W} {e' : Exec G W} {m m' : Mem G W}
    (h : CallStep alive c m m' e') (hc : c.follows = true) :
    latestPath m'.log = some m.nextSession := by
  cases h with
  | @follow ws _ _ _ _ _ hws | @followOver ws _ _ _ _ _ _ hws =>
      obtain ⟨w, ws, rfl⟩ := List.exists_cons_of_ne_nil hws
      rfl
  | _ => cases hc

theorem CallStep.latest_of_not {alive : SessionId → Bool} {c : Call G W} {e' : Exec G W}
    {m m' : Mem G W} (h : CallStep alive c m m' e') (hc : ¬ c.follows = true) :
    latestPath m'.log = latestPath m.log := by
  have path {r : PathRequest G W} {e : Event G W} (he : e.path? = none)
      (h : PathStep alive r (m.record e) m' e') : latestPath m'.log = latestPath m.log := by
    obtain ⟨k, hlog⟩ := h.draws
    rw [hlog.latest, latestPath_cons, Mem.record_log, latestPath_cons, he]
    rfl
  cases h with
  | followEmpty => rw [Mem.record_log]; split <;> rfl
  | follow hws | followOver hws => exact absurd (Call.follows_of_ne_nil hws) hc
  | noDock => split <;> rfl
  | dock h | undock _ _ _ _ h => exact path rfl h
  | stop | stopNone | undockReturns | cancelNavigation | cancelNone => rfl

/-- What the executor was about to do to session `i`, it has done. -/
theorem ExecStep.taken {alive : SessionId → Bool} {e e' : Exec G W} {m m' : Mem G W}
    (h : ExecStep alive e m m' e') {i : SessionId} {g : G} (ht : e.takes i = true)
    (hg : (m'.sessions i).goalId = some g) : ∃ j, e = .install j i ∧ j.request.net.goalId = g := by
  cases h with
  | @install j i' m =>
      obtain rfl := beq_iff_eq.mp ht
      rw [Mem.sessions_modify_self] at hg
      exact ⟨j, rfl, Option.some.inj hg⟩
  | @stopCancel i' m | @cancel i' m =>
      obtain rfl := beq_iff_eq.mp ht
      split at hg
      · rw [Mem.sessions_modify_self] at hg; cases hg
      · rename_i hnone
        rw [hg] at hnone
        exact absurd rfl hnone
  | _ => cases ht

theorem StandsOrTaken.step [DecidableEq G] {s s' : State G W} {a : Action G W} (h : Moves s a s')
    (hs : NavInv s) (hstand : Stand s.mem s.exec) (hm : StandsOrTaken s) : StandsOrTaken s' := by
  intro i g hi hg hlatest
  -- a goal just installed stands
  rcases h.goalId hs hg with hgoal | ⟨rfl, j, hj, -, rfl⟩
  swap
  · have hbefore := hstand.stands _ (by rw [hj]; rfl)
    cases h with
    | exec busy =>
        rcases (execStep s.alive busy s.mem).calm with hlog | ⟨f, hf⟩
        · exact .inl (hlog.standing.trans hbefore)
        · rw [hj] at hf; cases hf
  have hlt : i ≠ s.mem.nextSession := by
    obtain ⟨-, g', hp⟩ := (hs.nav.mem.sessions i).goal g hgoal
    exact (hs.nav.mem.goals.path_lt hp).ne
  have hi' : s.alive i = true := (h.alive hi).resolve_right fun ⟨e, _⟩ => hlt e
  have calm (hlog : Calm s.mem.log s'.mem.log) :
      standingGoal s'.mem.log = some g ∨ s.exec.takes i = true :=
    (hm i g hi' hgoal (hlog.latest ▸ hlatest)).imp_left hlog.standing.trans
  -- the latest session is the one `session_wp_` locks
  have locks (hl : latestPath s.mem.log = some i) (ha : s.exec.announcing? = none) :
      s.mem.lock s.alive = some i := by
    have := hstand.latest
    rw [hl, ha, Option.none_or] at this
    exact Mem.lock_eq_some.mpr ⟨this.symm, hi'⟩
  cases h with
  | call c idle fresh =>
      have hc := callStep s.alive c s.mem
      by_cases hf : c.follows = true
      · rw [hc.latest hf] at hlatest
        exact absurd (Option.some.inj hlatest).symm hlt
      · have hl : latestPath s.mem.log = some i := hc.latest_of_not hf ▸ hlatest
        rcases hc.takes (locks hl (by rw [idle]; rfl)) with hf' | hlog | ht
        · exact absurd hf' hf
        · refine (calm hlog).imp_right fun ht => ?_
          rw [idle] at ht
          cases ht
        · exact .inr ht
  | exec busy =>
      have he := execStep s.alive busy s.mem
      rcases he.calm with hlog | ⟨f, hf⟩
      · rcases calm hlog with hst | ht
        · exact .inl hst
        · obtain ⟨j, hj, rfl⟩ := he.taken ht hg
          exact .inl (hlog.standing.trans (hstand.stands _ (by rw [hj]; rfl)))
      · dsimp only at hlatest ⊢
        rw [hf] at hlatest ⊢
        have hp := pathStep s.alive f.request s.mem
        obtain ⟨k, hlog⟩ := hp.draws
        have hl : latestPath s.mem.log = some i := by
          have e := hlog.latest
          rw [latestPath_cons] at e
          exact e.symm.trans hlatest
        exact .inr (hp.takes (locks hl (by rw [hf]; rfl)))
  | update => exact calm (updateStep s.update s.mem).calm
  | recvStatus entries => exact hm i g hi' hgoal hlatest
  | status k t at_k => exact calm (statusStep s.alive t s.mem).calm
  | recvFeedback msg idle => exact calm ((Log.Grows.refl _).cons rfl)
  | feedback =>
      refine calm ?_
      dsimp only
      rw [FeedbackThread.log]
      exact .refl _

theorem StandsOrTaken.reach [DecidableEq G] {P : State G W → Action G W → Prop} {s : State G W}
    (h : (navigation G W).Reach P s) : StandsOrTaken s :=
  h.invariant_of (J := (navigation G W).Reach P) (fun _ => id) (fun _ _ _ hg => by cases hg)
    fun _ _ _ _ hstep hs hm => hm.step (navStep_moves hstep) (NavInv.reach hs) (Stand.reach hs)

/-! ### The goal withdrawn -/

/-- The goal of action `a` is out of every session, and no thread is about to run its callback. -/
def Withdrawn (s : State G W) (a : ActionId) : Prop :=
  (∀ i < s.mem.nextSession, s.alive i = true → ∀ g ∈ (s.mem.sessions i).goalId,
    ¬ UndockGoal s.mem.log a g) ∧ ∀ f ∈ s.firings, f.completes? ≠ some a

/-- A goal that is ousted is in no session that is alive. -/
theorem Ousted.goalId [DecidableEq G] {P : State G W → Action G W → Prop} {s : State G W}
    (hs : (navigation G W).Reach P s) (idle : s.exec = .idle) {g : G} (ho : Ousted s g)
    {i : SessionId} (hi : s.alive i = true) : (s.mem.sessions i).goalId ≠ some g := by
  intro hg
  have hstand := Stand.reach hs
  have hwp : latestPath s.mem.log = s.mem.sessionWp := by
    have := hstand.latest
    rwa [idle] at this
  rcases ho with hf | ⟨hgone, hold⟩
  · obtain ⟨j, st, hst, hfail⟩ := foundWith_iff.mp hf
    exact (EndsInv.reach hs).ends.ended hst (terminal_of_failed hfail) i hg
  · -- the session is that of the latest path, or older, and then nobody holds it
    have hlatest : latestPath s.mem.log = some i := by
      rcases hstand.goals i g hg with hl | hp
      · exact hl
      · obtain ⟨-, g', hpath⟩ := ((NavInv.reach hs).nav.mem.sessions i).goal g hg
        have hlt := (NavInv.reach hs).nav.mem.goals.path_lt hpath
        exact hwp.trans (hold hp i hlt hi)
    rcases hgone with hst | hlock
    · rcases StandsOrTaken.reach hs i g hi hg hlatest with h | h
      · exact hst h
      · rw [idle] at h; cases h
    · rw [Mem.lock_eq_some.mpr ⟨hwp.symm.trans hlatest, hi⟩] at hlock
      cases hlock

/-- Where its goal is ousted and was not found to have succeeded, an action is withdrawn. -/
theorem Ousted.withdrawn [DecidableEq G] {P : State G W → Action G W → Prop} {s : State G W}
    (hs : (navigation G W).Reach P s) (idle : s.exec = .idle) {a : ActionId}
    (h : ∀ e ∈ s.mem.log, ∀ g ∈ e.draws?, UndockGoal s.mem.log a g →
      ¬ FoundWith (fun st => st = .succeeded) s.mem.log g ∧ Ousted s g) : Withdrawn s a := by
  refine ⟨fun i _ hi g hg hundock => ?_, fun f hf ha => ?_⟩
  · have hundock' := hundock
    obtain ⟨c, k, hm, -⟩ := hundock'
    exact (h _ hm g rfl hundock).2.goalId hs idle hi hg
  · have hnav := NavInv.reach hs
    rcases List.mem_append.mp hf with hf | hf
    · rw [idle] at hf; cases hf
    · -- the callback a thread runs was taken with `SUCCEEDED`
      obtain ⟨t, ht, hf⟩ := List.mem_filterMap.mp hf
      have hfires := hnav.status t ht
      cases t with
      | fire i f' =>
          cases hf
          obtain ⟨κ, rfl, hκ⟩ := Firing.completes?_eq_some.mp ha
          obtain ⟨c, hc, hof⟩ := hfires
          cases hof
          cases hc with
          | @completion _ g status goal _ =>
              exact (h _ goal g rfl ⟨_, κ, goal, hκ⟩).1
                (foundWith_iff.mpr ⟨i, _, status, decide_eq_true rfl⟩)
      | lock _ | process _ _ | done => cases hf

/-! ### Every run -/

/-- The time-out itself touches nothing but the action. -/
theorem TimesOut.step [DecidableEq G] {s s' : State G W} {a : ActionId} {env : UndockEnv W}
    {net : Network G} (ht : TimesOut s a env)
    (h : navStep s (.call (.updateAction a env net)) = some s') :
    s' = { s with
      mem := (s.mem.setUndock a { s.mem.undock a with state := .failed }).record
        (.actionReturned a .failed) } := by
  cases navStep_moves h with
  | call _ idle _ => simp [Call.start, startUpdateAction, ht.1, ht.2.1, ht.2.2, idle]

theorem Withdrawn.dropped [DecidableEq G] {s s' : State G W} {a : ActionId} {env : UndockEnv W}
    {net : Network G} (hw : Withdrawn s a) (ht : TimesOut s a env)
    (h : navStep s (.call (.updateAction a env net)) = some s') (hs : NavInv s) :
    Dropped s' a := by
  obtain rfl := ht.step h
  refine ⟨by simp, by simp [ht.2.1], fun i hi g hg hgoal => ?_, fun t hmem => ?_⟩
  · obtain ⟨c, k, hm, hk⟩ := hg
    obtain ⟨-, g', hpath⟩ := (hs.nav.mem.sessions i).goal g hgoal
    exact hw.1 i (hs.nav.mem.goals.path_lt hpath) hi g hgoal
      ⟨c, k, (List.mem_cons.mp hm).resolve_left nofun, hk⟩
  · cases t with
    | fire i f => exact hw.2 f (mem_firings hmem)
    | lock _ | process _ _ | done => trivial

/-- An action that has navigated and failed is dropped, where its goal was withdrawn in time. -/
theorem dropped_of_failed [DecidableEq G] {t : State G W} {a : ActionId}
    (h : (navigation G W).Reach (Withdraws a) t) :
    ∀ g, UndockGoal t.mem.log a g → (t.mem.undock a).state = .failed → Dropped t a := by
  refine h.invariant_of
    (I := fun s => ∀ g, UndockGoal s.mem.log a g → (s.mem.undock a).state = .failed → Dropped s a)
    (J := (navigation G W).Reach (Withdraws a)) (fun _ => id) (fun _ _ hf => by cases hf) ?_
  · intro s act s' hP hstep hreach ih g hg hf
    have hs := NavInv.reach hreach
    have hu := UndockOk.reach hreach a
    have hm := navStep_moves hstep
    have again (hfailed : (s.mem.undock a).state = .failed) : Dropped s' a := by
      have hp : (s.mem.undock a).state ≠ .planning := by rw [hfailed]; nofun
      exact (ih g ((hm.undock hs a).goal hp hu hg) hfailed).step hm hs hu
    cases hm.undock hs a with
    | aside mem runs => exact again (mem.2 ▸ hf)
    | plans _ still => rw [still] at hf; cases hf
    | navigates _ _ state => rw [state] at hf; cases hf
    | invoked _ _ _ undock => rw [undock] at hf; exact again hf
    | returns was _ returns mem =>
        have hgs : UndockGoal s.mem.log a g := by
          obtain ⟨c, k, hmem, hk⟩ := hg
          rw [mem] at hmem
          exact ⟨c, k, (List.mem_cons.mp hmem).resolve_left nofun, hk⟩
        cases returns with
        | gaveUp h =>
            have := hu.drawn g hgs h
            rw [was] at this
            cases this
        | timedOut h hn ht =>
            have hw := Ousted.withdrawn hreach was (hP rfl ⟨h, hn, ht⟩)
            exact hw.dropped ⟨h, hn, ht⟩ hstep hs
        | failed h => exact again h
        | started | arrived | waits | completed => simp [mem] at hf

/-- **Released and forgotten.**  In runs where the goal of action `a` is out of its session before
the action runs out of time, an action that has navigated and returned `FAILED` is forgotten: no
session holds its callback or its goal, and no status message calls the callback. -/
theorem released_forgotten [DecidableEq G] {t : State G W} {a : ActionId} {g : G}
    (h : (navigation G W).Reach (Withdraws a) t) (hg : UndockGoal t.mem.log a g)
    (hf : .actionReturned a .failed ∈ t.mem.log) : Forgotten t a := by
  have hu := UndockOk.reach h a
  exact (dropped_of_failed h g hg (hu.returned hf)).forgotten (NavInv.reach h) hu

/-- At a time-out the action is forgotten for good, whatever follows, exactly if its goal has been
withdrawn. -/
theorem forgotten_iff [DecidableEq G] {P : State G W → Action G W → Prop} {s s' : State G W}
    {a : ActionId} {env : UndockEnv W} {net : Network G} (hs : (navigation G W).Reach P s)
    (ht : TimesOut s a env) (h : navStep s (.call (.updateAction a env net)) = some s') :
    (∀ as t, (navigation G W).Run (fun _ _ => True) s' as t → Forgotten t a) ↔ Withdrawn s a := by
  have hnav := NavInv.reach hs
  have hu := UndockOk.reach hs a
  constructor
  · intro hall
    have hforgot := hall [] s' (.nil _)
    obtain rfl := ht.step h
    refine ⟨fun i _ hi g hg hgoal => ?_, hforgot.firings⟩
    obtain ⟨c, k, hm, hk⟩ := hgoal
    exact hforgot.goals i hi g ⟨c, k, List.mem_cons_of_mem _ hm, hk⟩ hg
  · intro hw as t hrun
    obtain ⟨hd, hnav', hu'⟩ := hrun.preserves
      (I := fun s => Dropped s a ∧ NavInv s ∧ UndockOk s a)
      (fun s act s' _ hstep hI => ⟨hI.1.step (navStep_moves hstep) hI.2.1 hI.2.2,
        hI.2.1.step hstep, hI.2.2.step ((navStep_moves hstep).undock hI.2.1 a)⟩)
      ⟨hw.dropped ht h hnav, hnav.step h, hu.step ((navStep_moves h).undock hnav a)⟩
    exact hd.forgotten hnav' hu'

/-- An action plans its path in the session of the first path and sends it, as goal 9. -/
def undockSent : List (Action ℕ ℕ) :=
  following ++ [.call (.updateAction 0 ⟨false, some [4, 5], true⟩ ⟨9, true, some true⟩), .exec,
    .exec, .exec]

/-- `update_action` 60 s later. -/
def undockLate : Action ℕ ℕ := .call (.updateAction 0 ⟨true, none, true⟩ ⟨10, true, none⟩)

theorem released_forgotten_canceled :
    ∃ t, (navigation ℕ ℕ).Run (Withdraws 0) navStart
        (undockSent ++ [.call .cancelNavigation, .exec, undockLate]) t ∧
      UndockGoal t.mem.log 0 9 ∧ .actionReturned 0 .failed ∈ t.mem.log ∧ Forgotten t 0 := by
  obtain ⟨t, ht, hq⟩ := Lts.exists_run (navigation ℕ ℕ) (Withdraws 0) navStart
    (undockSent ++ [.call .cancelNavigation, .exec, undockLate])
    (fun t => UndockGoal t.mem.log 0 9 ∧ .actionReturned 0 .failed ∈ t.mem.log) (by decide)
  obtain ⟨hg, hf⟩ := of_decide_eq_true hq
  exact ⟨t, ht, hg, hf, released_forgotten ⟨_, ht⟩ hg hf⟩

/-- Nobody cancels: after the action has been released the robot reports success, and the session
calls its callback. -/
theorem released_invoked :
    ¬ ∀ (t : State ℕ ℕ) (a : ActionId) (g : ℕ), (navigation ℕ ℕ).Reach (fun _ _ => True) t →
      UndockGoal t.mem.log a g → .actionReturned a .failed ∈ t.mem.log → Forgotten t a := by
  intro h
  obtain ⟨t, ht, hq⟩ := Lts.exists_run (navigation ℕ ℕ) (fun _ _ => True) navStart
    (undockSent ++ [undockLate, .recvStatus [(9, .succeeded)], .status 0, .status 0, .status 0])
    (fun t => UndockGoal t.mem.log 0 9 ∧ t.mem.log.take 3 = [.invoked (.completion ⟨1, .undock 0⟩),
      .status 0 9 .succeeded, .actionReturned 0 .failed]) (by decide)
  obtain ⟨hg, hl⟩ := of_decide_eq_true hq
  have mem {e : Event ℕ ℕ} (he : e ∈ t.mem.log.take 3) : e ∈ t.mem.log := List.mem_of_mem_take he
  rw [hl] at mem
  exact (h t 0 9 ⟨_, ht⟩ hg (mem (by simp))).uninvoked _ (mem List.mem_cons_self) rfl

end EgbFleet
