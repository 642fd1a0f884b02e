import EgbFleet.Navigation.Steps

/-!
# Navigation — where callbacks come from

What holds in every state the machine reaches, whatever the schedule:

* a session's goal id was drawn by an `execute_path` call, and the completion callback beside it
  is the one that call was given (`SessionOk`);
* goal ids, calls and paths determine each other in the log (`GoalsOk`);
* the executor, and each closure on its way, belongs to the path it says (`ExecOk`, `Taken`).

`Tame` is a step that installs nothing: it leaves the callbacks of a session as they are or
invalidates it, and it can clear `session_` but not set it.  Every step of another thread is tame
(`StatusStep.zenohStep`), and so is most of what the executor does; what it installs is handled
where it does.  `NavInv.reach` is the invariant.
-/

namespace EgbFleet

variable {G W : Type}

/-- `g` is the goal id drawn for path `p`. -/
def PathGoal (h : List (Event G W)) (p : SessionId) (g : G) : Prop :=
  ∃ c finished, .goal c g (some ⟨c, .path p finished⟩) ∈ h

theorem PathGoal.mono {h h' : List (Event G W)} (hs : h <:+ h') {p : SessionId} {g : G}
    (hp : PathGoal h p g) : PathGoal h' p g :=
  let ⟨c, fin, hc⟩ := hp
  ⟨c, fin, hs.subset hc⟩

/-! ### The log of goals -/

/-- Goal ids, calls and paths determine each other. -/
structure GoalsOk (m : Mem G W) : Prop where
  call_lt : ∀ {c g k}, .goal c g k ∈ m.log → c < m.nextCall
  tagged : ∀ {c g k}, .goal c g (some k) ∈ m.log → k.call = c
  goal_inj : ∀ {c c' g k k'}, .goal c g k ∈ m.log → .goal c' g k' ∈ m.log → c = c' ∧ k = k'
  call_inj : ∀ {c g g' k k'}, .goal c g k ∈ m.log → .goal c g' k' ∈ m.log → g = g' ∧ k = k'
  path_lt : ∀ {p g}, PathGoal m.log p g → p < m.nextSession
  path_inj : ∀ {p g g'}, PathGoal m.log p g → PathGoal m.log p g' → g = g'

/-- The goals of `m'` are those of `m`, and its counters are no lower. -/
structure SameGoals (m m' : Mem G W) : Prop where
  suffix : m.log <:+ m'.log
  back : ∀ {c g k}, .goal c g k ∈ m'.log → .goal c g k ∈ m.log
  nextCall : m.nextCall ≤ m'.nextCall
  nextSession : m.nextSession ≤ m'.nextSession

theorem SameGoals.pathGoal {m m' : Mem G W} (h : SameGoals m m') {p : SessionId} {g : G}
    (hp : PathGoal m'.log p g) : PathGoal m.log p g :=
  let ⟨c, fin, hc⟩ := hp
  ⟨c, fin, h.back hc⟩

theorem SameGoals.of_log {m m' : Mem G W} (h : m'.log = m.log)
    (hc : m.nextCall ≤ m'.nextCall) (hs : m.nextSession ≤ m'.nextSession) : SameGoals m m' :=
  ⟨h ▸ List.suffix_refl _, fun x => h ▸ x, hc, hs⟩

theorem SameGoals.refl (m : Mem G W) : SameGoals m m := .of_log rfl le_rfl le_rfl

theorem SameGoals.trans {m₁ m₂ m₃ : Mem G W} (h : SameGoals m₁ m₂) (h' : SameGoals m₂ m₃) :
    SameGoals m₁ m₃ :=
  ⟨h.suffix.trans h'.suffix, fun x => h.back (h'.back x), h.nextCall.trans h'.nextCall,
    h.nextSession.trans h'.nextSession⟩

theorem SameGoals.record (m : Mem G W) {e : Event G W} (he : e.draws? = none) :
    SameGoals m (m.record e) where
  suffix := List.suffix_cons _ _
  back := fun hm => by
    rcases List.mem_cons.mp hm with rfl | hm
    · cases he
    · exact hm
  nextCall := le_rfl
  nextSession := le_rfl

theorem SameGoals.goalsOk {m m' : Mem G W} (h : SameGoals m m') (hm : GoalsOk m) :
    GoalsOk m' where
  call_lt := fun hc => (hm.call_lt (h.back hc)).trans_le h.nextCall
  tagged := fun hc => hm.tagged (h.back hc)
  goal_inj := fun hc hc' => hm.goal_inj (h.back hc) (h.back hc')
  call_inj := fun hc hc' => hm.call_inj (h.back hc) (h.back hc')
  path_lt := fun hp => (hm.path_lt (h.pathGoal hp)).trans_le h.nextSession
  path_inj := fun hp hp' => hm.path_inj (h.pathGoal hp) (h.pathGoal hp')

/-! ### Sessions -/

/-- The callbacks and the goal of a session are those of another. -/
structure SameCallbacks (σ σ' : NavigationSession G) : Prop where
  goalId : σ'.goalId = σ.goalId
  done : σ'.done = σ.done
  completion : σ'.completionCallback = σ.completionCallback
  failure : σ'.failureCallback = σ.failureCallback
  arrival : σ'.arrivalEstimator = σ.arrivalEstimator
  rmf : σ'.rmfArrivalEstimator = σ.rmfArrivalEstimator

/-- A session `invalidate` has cleared. -/
structure Invalid (σ : NavigationSession G) : Prop where
  goalId : σ.goalId = none
  done : σ.done = true
  completion : σ.completionCallback = none
  failure : σ.failureCallback = none
  arrival : σ.arrivalEstimator = none
  rmf : σ.rmfArrivalEstimator = none

/-- A session with no closure of its own path in it. -/
structure Unarmed (σ : NavigationSession G) : Prop where
  failure : σ.failureCallback = none
  completion : ∀ k, σ.completionCallback = some k → (Closure.completion k).path? = none

theorem SameCallbacks.refl (σ : NavigationSession G) : SameCallbacks σ σ :=
  ⟨rfl, rfl, rfl, rfl, rfl, rfl⟩

theorem SameCallbacks.trans {σ₁ σ₂ σ₃ : NavigationSession G} (h : SameCallbacks σ₁ σ₂)
    (h' : SameCallbacks σ₂ σ₃) : SameCallbacks σ₁ σ₃ :=
  ⟨h'.goalId.trans h.goalId, h'.done.trans h.done, h'.completion.trans h.completion,
    h'.failure.trans h.failure, h'.arrival.trans h.arrival, h'.rmf.trans h.rmf⟩

theorem SameCallbacks.invalid {σ σ' : NavigationSession G} (h : SameCallbacks σ σ')
    (hσ : Invalid σ) : Invalid σ' :=
  ⟨h.goalId.trans hσ.goalId, h.done.trans hσ.done, h.completion.trans hσ.completion,
    h.failure.trans hσ.failure, h.arrival.trans hσ.arrival, h.rmf.trans hσ.rmf⟩

theorem SameCallbacks.unarmed {σ σ' : NavigationSession G} (h : SameCallbacks σ σ')
    (hσ : Unarmed σ) : Unarmed σ' :=
  ⟨h.failure.trans hσ.failure, fun k hk => hσ.completion k (h.completion ▸ hk)⟩

theorem invalid_invalidate (σ : NavigationSession G) : Invalid σ.invalidate :=
  ⟨rfl, rfl, rfl, rfl, rfl, rfl⟩

theorem Invalid.unarmed {σ : NavigationSession G} (h : Invalid σ) : Unarmed σ :=
  ⟨h.failure, fun k hk => by rw [h.completion] at hk; cases hk⟩

/-- What the callbacks of session `i` are, against the log. -/
structure SessionOk (h : List (Event G W)) (i : SessionId) (σ : NavigationSession G) : Prop where
  failure : ∀ p, σ.failureCallback = some p → p = i
  rmf : ∀ p, σ.rmfArrivalEstimator = some p → p = i
  goal : ∀ g, σ.goalId = some g → (∃ c, .goal c g σ.completionCallback ∈ h) ∧ ∃ g, PathGoal h i g
  completion : ∀ k, σ.completionCallback = some k → σ.goalId ≠ none
  path : ∀ k, σ.completionCallback = some k → ∀ p, (Closure.completion k).path? = some p → p = i
  estimator : ∀ p, σ.arrivalEstimator = some p →
    p = i ∧ ∃ c finished, σ.completionCallback = some ⟨c, .path i finished⟩

theorem SessionOk.mono {h h' : List (Event G W)} (hs : h <:+ h') {i : SessionId}
    {σ : NavigationSession G} (hσ : SessionOk h i σ) : SessionOk h' i σ where
  failure := hσ.failure
  rmf := hσ.rmf
  goal := fun g hg =>
    let ⟨⟨c, hc⟩, g', hp⟩ := hσ.goal g hg
    ⟨⟨c, hs.subset hc⟩, g', hp.mono hs⟩
  completion := hσ.completion
  path := hσ.path
  estimator := hσ.estimator

theorem SessionOk.same {h : List (Event G W)} {i : SessionId} {σ σ' : NavigationSession G}
    (hσ : SessionOk h i σ) (e : SameCallbacks σ σ') : SessionOk h i σ' where
  failure := fun p => e.failure ▸ hσ.failure p
  rmf := fun p => e.rmf ▸ hσ.rmf p
  goal := fun g => e.goalId ▸ e.completion ▸ hσ.goal g
  completion := fun k => e.goalId ▸ e.completion ▸ hσ.completion k
  path := fun k => e.completion ▸ hσ.path k
  estimator := fun p => e.arrival ▸ e.completion ▸ hσ.estimator p

/-- A session without a goal and without callbacks. -/
theorem SessionOk.initial {h : List (Event G W)} {i : SessionId} {σ : NavigationSession G}
    (hg : σ.goalId = none) (hc : σ.completionCallback = none) (hf : σ.failureCallback = none)
    (ha : σ.arrivalEstimator = none) (hr : σ.rmfArrivalEstimator = none) : SessionOk h i σ where
  failure := fun p hp => by rw [hf] at hp; cases hp
  rmf := fun p hp => by rw [hr] at hp; cases hp
  goal := fun g hg' => by rw [hg] at hg'; cases hg'
  completion := fun k hk => by rw [hc] at hk; cases hk
  path := fun k hk => by rw [hc] at hk; cases hk
  estimator := fun p hp => by rw [ha] at hp; cases hp

theorem Invalid.sessionOk {h : List (Event G W)} {i : SessionId} {σ : NavigationSession G}
    (hσ : Invalid σ) : SessionOk h i σ :=
  .initial hσ.goalId hσ.completion hσ.failure hσ.arrival hσ.rmf

/-- What holds of the sessions and the log, wherever the executor is. -/
structure MemOk (m : Mem G W) : Prop where
  goals : GoalsOk m
  sessions : ∀ i, SessionOk m.log i (m.sessions i)
  own : ∀ i g, (m.sessions i).goalId = some g → PathGoal m.log i g →
    (m.sessions i).failureCallback = some i
  ended : ∀ {i g st}, .status i g st ∈ m.log →
    (∃ g, PathGoal m.log i g) ∧ (st.terminal = true → Unarmed (m.sessions i))
  session_lt : ∀ i, m.session = some i → i < m.nextSession

/-! ### Tame steps -/

/-- A step that installs no callback and no goal, and draws none. -/
structure Tame (m m' : Mem G W) : Prop where
  goals : SameGoals m m'
  session : m'.session = m.session ∨ m'.session = none
  sessionWp : m'.sessionWp = m.sessionWp
  sessions : ∀ i, SameCallbacks (m.sessions i) (m'.sessions i) ∨ Invalid (m'.sessions i)
  statuses : ∀ {i g st}, .status i g st ∈ m'.log → .status i g st ∈ m.log ∨
    ((m.sessions i).goalId = some g ∧ (st.terminal = true → Invalid (m'.sessions i)))

/-- Nothing but the log, `pending_failure_` or an action has changed. -/
theorem Tame.of_log {m m' : Mem G W} (hg : SameGoals m m') (hs : m'.session = m.session)
    (hw : m'.sessionWp = m.sessionWp) (hσ : m'.sessions = m.sessions)
    (hst : ∀ {i g st}, .status i g st ∈ m'.log → .status i g st ∈ m.log) : Tame m m' :=
  ⟨hg, .inl hs, hw, fun _ => .inl (hσ ▸ .refl _), fun h => .inl (hst h)⟩

theorem Tame.refl (m : Mem G W) : Tame m m := .of_log (.refl m) rfl rfl rfl id

theorem Tame.trans {m₁ m₂ m₃ : Mem G W} (h : Tame m₁ m₂) (h' : Tame m₂ m₃) : Tame m₁ m₃ where
  goals := h.goals.trans h'.goals
  session := by
    rcases h'.session with e | e
    · rw [e]; exact h.session
    · exact .inr e
  sessionWp := h'.sessionWp.trans h.sessionWp
  sessions := fun i => by
    rcases h'.sessions i with e' | e'
    · rcases h.sessions i with e | e
      · exact .inl (e.trans e')
      · exact .inr (e'.invalid e)
    · exact .inr e'
  statuses := fun {i g st} hi => by
    rcases h'.statuses hi with hi | ⟨hg, ht⟩
    · rcases h.statuses hi with hi | ⟨hg, ht⟩
      · exact .inl hi
      · refine .inr ⟨hg, fun hst => ?_⟩
        rcases h'.sessions i with e' | e'
        · exact e'.invalid (ht hst)
        · exact e'
    · rcases h.sessions i with e | e
      · exact .inr ⟨e.goalId ▸ hg, ht⟩
      · rw [e.goalId] at hg; cases hg

/-- An event that neither draws a goal nor ends one. -/
def Event.quiet : Event G W → Bool
  | .goal _ _ _ | .status _ _ _ => false
  | _ => true

theorem Event.draws?_of_quiet {e : Event G W} (he : e.quiet = true) : e.draws? = none := by
  cases e with
  | goal _ _ _ => cases he
  | _ => rfl

theorem Tame.record (m : Mem G W) {e : Event G W} (he : e.quiet = true) : Tame m (m.record e) :=
  .of_log (.record m (Event.draws?_of_quiet he)) rfl rfl rfl fun hm => by
    rcases List.mem_cons.mp hm with rfl | hm
    · cases he
    · exact hm

theorem Tame.modify {m : Mem G W} {i : SessionId} {f : NavigationSession G → NavigationSession G}
    (hf : SameCallbacks (m.sessions i) (f (m.sessions i)) ∨ Invalid (f (m.sessions i))) :
    Tame m (m.modify i f) where
  goals := .of_log rfl le_rfl le_rfl
  session := .inl rfl
  sessionWp := rfl
  sessions := fun j => Mem.sessions_modify_rec i f m j hf fun _ => .inl (.refl _)
  statuses := .inl

theorem Tame.invalidate (m : Mem G W) (i : SessionId) : Tame m (m.modify i .invalidate) :=
  .modify (.inr (invalid_invalidate _))

theorem Tame.setSession (m : Mem G W) : Tame m (m.setSession none) :=
  ⟨.of_log rfl le_rfl le_rfl, .inr rfl, rfl, fun _ => .inl (.refl _), .inl⟩

theorem Tame.setPendingFailure (m : Mem G W) (b : Bool) : Tame m (m.setPendingFailure b) :=
  .of_log (.of_log rfl le_rfl le_rfl) rfl rfl rfl id

theorem Tame.setUndock (m : Mem G W) (a : ActionId) (u : UndockAction) :
    Tame m (m.setUndock a u) :=
  .of_log (.of_log rfl le_rfl le_rfl) rfl rfl rfl id

theorem Tame.returnFrom (c : Caller) (m : Mem G W) : Tame m (m.returnFrom c) := by
  cases c with
  | follow p => exact .record m rfl
  | dock => exact .refl m
  | undock a => exact (Tame.setUndock m _ _).trans (.record _ rfl)

/-- An entry for a session's goal is found; a terminal one ends the session. -/
theorem Tame.status {m : Mem G W} {i : SessionId} {g : G} (st : GoalStatus)
    (hg : (m.sessions i).goalId = some g) :
    Tame m (if st.terminal then (m.record (.status i g st)).modify i .invalidate
      else m.record (.status i g st)) := by
  split
  · rename_i ht
    have hi : Tame (m.record (.status i g st)) _ := .invalidate _ i
    refine ⟨(SameGoals.record m rfl).trans hi.goals, hi.session, rfl, hi.sessions, fun hm => ?_⟩
    rcases List.mem_cons.mp hm with e | hm
    · cases e
      exact .inr ⟨hg, fun _ => by rw [Mem.sessions_modify_self]; exact invalid_invalidate _⟩
    · exact .inl hm
  · rename_i ht
    refine ⟨.record m rfl, .inl rfl, rfl, fun _ => .inl (.refl _), fun hm => ?_⟩
    rcases List.mem_cons.mp hm with e | hm
    · cases e
      exact .inr ⟨hg, fun h => absurd h ht⟩
    · exact .inl hm

theorem Tame.memOk {m m' : Mem G W} (h : Tame m m') (hm : MemOk m) : MemOk m' where
  goals := h.goals.goalsOk hm.goals
  sessions := fun i => by
    rcases h.sessions i with e | e
    · exact ((hm.sessions i).mono h.goals.suffix).same e
    · exact e.sessionOk
  own := fun i g hg hp => by
    rcases h.sessions i with e | e
    · rw [e.failure]
      exact hm.own i g (e.goalId ▸ hg) (h.goals.pathGoal hp)
    · rw [e.goalId] at hg; cases hg
  ended := fun {i g st} hi => by
    rcases h.statuses hi with hi | ⟨hg, ht⟩
    · obtain ⟨⟨g, hp⟩, hu⟩ := hm.ended hi
      refine ⟨⟨g, hp.mono h.goals.suffix⟩, fun hst => ?_⟩
      rcases h.sessions i with e | e
      · exact e.unarmed (hu hst)
      · exact e.unarmed
    · obtain ⟨-, g, hp⟩ := (hm.sessions i).goal g hg
      exact ⟨⟨g, hp.mono h.goals.suffix⟩, fun hst => (ht hst).unarmed⟩
  session_lt := fun i hi => by
    rcases h.session with e | e
    · exact (hm.session_lt i (e ▸ hi)).trans_le h.goals.nextSession
    · rw [e] at hi; cases hi

/-! ### Closures on the way -/

/-- What is left of a path's closure once it has invalidated its session. -/
def Closure.tail? : Closure → Option Tail
  | .completion ⟨_, .path p finished⟩ => some (.arrived p finished)
  | .completion ⟨_, .dock⟩ | .completion ⟨_, .undock _⟩ => none
  | .failure p => some (.failed p)

/-- What a closure being run will come to. -/
def Firing.tail? : Firing → Option Tail
  | .enter c => c.tail?
  | .reset t | .report t => some t

/-- `f` is closure `c` being run. -/
inductive Firing.Of (c : Closure) : Firing → Prop where
  | enter : Of c (.enter c)
  | reset {t : Tail} (ht : c.tail? = some t) : Of c (.reset t)
  | report {t : Tail} (ht : c.tail? = some t) : Of c (.report t)

theorem Closure.path?_of_tail? {c : Closure} {t : Tail} (h : c.tail? = some t) :
    c.path? = some t.path := by
  rcases c with ⟨_, _ | _ | _⟩ | p
  · cases h; rfl
  · cases h
  · cases h
  · cases h; rfl

theorem Firing.Of.path? {c : Closure} {f : Firing} (h : f.Of c) : f.path? = c.path? := by
  cases h with
  | enter => rfl
  | reset ht | report ht => exact (Closure.path?_of_tail? ht).symm

theorem Firing.Of.tail? {c : Closure} {f : Firing} (h : f.Of c) : f.tail? = c.tail? := by
  cases h with
  | enter => rfl
  | reset ht | report ht => exact ht.symm

/-- What the caller of `follow_new_path`, or `RobotState`, is told. -/
def Tail.tells : Tail → List (Event G W)
  | .arrived p finished => if finished then [.finished p] else []
  | .failed p => [.flagged p]

/-- What a closure tells, once it has been invoked. -/
def Closure.tells : Closure → List (Event G W)
  | .completion ⟨_, .path p finished⟩ => (Tail.arrived p finished).tells
  | .completion ⟨c, .dock⟩ => [.docked (some c)]
  | .completion ⟨_, .undock _⟩ => []
  | .failure p => (Tail.failed p).tells

/-- What a running closure has still to write to the log. -/
def Firing.tells : Firing → List (Event G W)
  | .enter c => c.tells ++ [.invoked c]
  | .reset t | .report t => t.tells

theorem ClosureStep.tells {alive : SessionId → Bool} {f : Firing} {f' : Option Firing}
    {m m' : Mem G W} (h : ClosureStep alive f m m' f') :
    f'.elim [] Firing.tells ++ m'.log = f.tells ++ m.log := by
  cases h with
  | @enterPath k p fin m hk =>
      obtain ⟨c, kind⟩ := k
      cases hk
      split <;> simp [Firing.tells, Closure.tells]
  | @enterDock k m hk =>
      obtain ⟨c, kind⟩ := k
      cases hk
      rfl
  | @enterUndock k a m hk =>
      obtain ⟨c, kind⟩ := k
      cases hk
      rfl
  | enterFailure => split <;> simp [Firing.tells, Closure.tells]
  | reset => rfl
  | @reportArrived p fin m => cases fin <;> rfl
  | reportFailed => rfl

/-- A closure's step moves events from what it has still to write to the log. -/
theorem ClosureStep.countP {alive : SessionId → Bool} {f : Firing} {f' : Option Firing}
    {m m' : Mem G W} (h : ClosureStep alive f m m' f') (q : Event G W → Bool) :
    m'.log.countP q + (f'.elim [] Firing.tells).countP q =
      m.log.countP q + f.tells.countP q := by
  have := congrArg (List.countP q) h.tells
  rw [List.countP_append, List.countP_append] at this
  omega

theorem ClosureStep.tail? {alive : SessionId → Bool} {f f' : Firing} {m m' : Mem G W}
    (h : ClosureStep alive f m m' (some f')) : f'.tail? = f.tail? := by
  cases h with
  | @enterPath k p fin m hk =>
      obtain ⟨n, kind⟩ := k
      cases hk
      rfl
  | enterFailure | reset => rfl

theorem ClosureStep.of {alive : SessionId → Bool} {f f' : Firing} {m m' : Mem G W} {c : Closure}
    (h : ClosureStep alive f m m' (some f')) (hf : f.Of c) : f'.Of c := by
  cases h with
  | @enterPath k p fin m hk =>
      cases hf
      obtain ⟨n, kind⟩ := k
      cases hk
      exact .reset rfl
  | enterFailure => cases hf; exact .reset rfl
  | reset =>
      cases hf with
      | reset ht => exact .report ht

theorem ClosureStep.tame {alive : SessionId → Bool} {f : Firing} {f' : Option Firing}
    {m m' : Mem G W} (h : ClosureStep alive f m m' f') : Tame m m' := by
  have invoked (c : Closure) : Tame m (m.record (.invoked c)) :=
    .record m rfl
  cases h with
  | enterPath hk | enterFailure =>
      split
      · exact (invoked _).trans (.invalidate _ _)
      · exact invoked _
  | enterDock hk => exact (invoked _).trans (.record _ rfl)
  | enterUndock hk => exact (invoked _).trans (.setUndock _ _ _)
  | reset => exact .setSession m
  | reportArrived =>
      split
      · exact .record m rfl
      · exact .refl m
  | reportFailed => exact (Tame.setPendingFailure m true).trans (.record _ rfl)

/-- `status_callback` copied closure `c` out of session `i`, for an entry in the log. -/
inductive Taken (h : List (Event G W)) (i : SessionId) : Closure → Prop where
  | completion {k : Completion} {g : G} (status : .status i g .succeeded ∈ h)
      (goal : .goal k.call g (some k) ∈ h)
      (path : ∀ p, (Closure.completion k).path? = some p → p = i) : Taken h i (.completion k)
  | failure {g : G} {st : GoalStatus} (status : .status i g st ∈ h) (failed : st.failed = true) :
      Taken h i (.failure i)

theorem Taken.mono {h h' : List (Event G W)} (hs : h <:+ h') {i : SessionId} {c : Closure}
    (hc : Taken h i c) : Taken h' i c := by
  cases hc with
  | completion status goal path => exact .completion (hs.subset status) (hs.subset goal) path
  | failure status failed => exact .failure (hs.subset status) failed

theorem terminal_of_failed {st : GoalStatus} (h : st.failed = true) : st.terminal = true := by
  cases st with
  | aborted | canceled => rfl
  | accepted | executing | succeeded | other _ => cases h

theorem Taken.path {h : List (Event G W)} {i : SessionId} {c : Closure} (hc : Taken h i c) :
    ∀ p, c.path? = some p → p = i := by
  cases hc with
  | completion _ _ path => exact path
  | failure _ _ => exact fun p hp => (Option.some.inj hp).symm

theorem Taken.status {h : List (Event G W)} {i : SessionId} {c : Closure} (hc : Taken h i c) :
    ∃ g st, .status i g st ∈ h ∧ st.terminal = true := by
  cases hc with
  | completion status _ _ => exact ⟨_, _, status, rfl⟩
  | failure status failed => exact ⟨_, _, status, terminal_of_failed failed⟩

/-- The completion callback in a session is the one given to the call that drew its goal. -/
theorem MemOk.goal_of_completion {m : Mem G W} (hm : MemOk m) {i : SessionId} {g : G}
    {k : Completion} (hg : (m.sessions i).goalId = some g)
    (hk : (m.sessions i).completionCallback = some k) : .goal k.call g (some k) ∈ m.log := by
  obtain ⟨⟨c, hc⟩, -⟩ := (hm.sessions i).goal g hg
  rw [hk] at hc
  obtain rfl := hm.goals.tagged hc
  exact hc

/-- What `status_callback` copies out of a session is the closure its goal's call was given, or
the session's own failure closure. -/
theorem Taken.of_closureFor {m : Mem G W} (hm : MemOk m) {i : SessionId} {g : G} {st : GoalStatus}
    {c : Closure} (hg : (m.sessions i).goalId = some g)
    (hc : (m.sessions i).closureFor st = some c) : Taken (.status i g st :: m.log) i c := by
  have failed (hst : st.failed = true) (p : SessionId)
      (hp : (m.sessions i).failureCallback = some p) :
      Taken (.status i g st :: m.log) i (.failure p) := by
    obtain rfl := (hm.sessions i).failure p hp
    exact .failure List.mem_cons_self hst
  cases st with
  | succeeded =>
      obtain ⟨k, hk, rfl⟩ := Option.map_eq_some_iff.mp hc
      have hgoal := hm.goal_of_completion hg hk
      exact .completion List.mem_cons_self (List.mem_cons_of_mem _ hgoal)
        ((hm.sessions i).path k hk)
  | canceled | aborted =>
      obtain ⟨p, hp, rfl⟩ := Option.map_eq_some_iff.mp hc
      exact failed rfl p hp
  | accepted | executing | other _ => cases hc

/-! ### The other threads -/

/-- A tame step that invalidates no session whose goal has yet to be installed. -/
structure ZenohStep (m m' : Mem G W) : Prop extends Tame m m' where
  live : ∀ i, SameCallbacks (m.sessions i) (m'.sessions i) ∨ (m.sessions i).goalId ≠ none ∨
    ∃ g st, .status i g st ∈ m.log

theorem Tame.zenohStep {m m' : Mem G W} (h : Tame m m') (hσ : m'.sessions = m.sessions) :
    ZenohStep m m' :=
  ⟨h, fun _ => .inl (hσ ▸ .refl _)⟩

theorem ZenohStep.modify {m : Mem G W} {i : SessionId}
    {f : NavigationSession G → NavigationSession G}
    (hf : SameCallbacks (m.sessions i) (f (m.sessions i))) : ZenohStep m (m.modify i f) :=
  ⟨.modify (.inl hf), fun j =>
    Mem.sessions_modify_rec i f m j (.inl hf) fun _ => .inl (.refl _)⟩

/-- `f` is a closure `status_callback` copied out of session `i`. -/
def TakenFrom (h : List (Event G W)) (i : SessionId) (f : Firing) : Prop :=
  ∃ c, Taken h i c ∧ f.Of c

theorem TakenFrom.mono {h h' : List (Event G W)} (hs : h <:+ h') {i : SessionId} {f : Firing}
    (hf : TakenFrom h i f) : TakenFrom h' i f :=
  let ⟨c, hc, hof⟩ := hf
  ⟨c, hc.mono hs, hof⟩

theorem TakenFrom.path {h : List (Event G W)} {i : SessionId} {f : Firing}
    (hf : TakenFrom h i f) {p : SessionId} (hp : f.path? = some p) : p = i :=
  let ⟨_, hc, hof⟩ := hf
  hc.path p (hof.path? ▸ hp)

/-- The step of a closure copied out of session `i`. -/
theorem ClosureStep.zenohStep {alive : SessionId → Bool} {f : Firing} {f' : Option Firing}
    {m m' : Mem G W} (h : ClosureStep alive f m m' f')
    (hf : ∀ p, f.path? = some p → ∃ g st, .status p g st ∈ m.log) : ZenohStep m m' := by
  refine ⟨h.tame, fun j => ?_⟩
  have enter {c : Closure} {p : SessionId} (hp : ∃ g st, .status p g st ∈ m.log) :
      SameCallbacks (m.sessions j)
          ((if alive p then (m.record (.invoked c)).modify p .invalidate
            else m.record (.invoked c)).sessions j) ∨
        (m.sessions j).goalId ≠ none ∨ ∃ g st, .status j g st ∈ m.log := by
    split
    · exact Mem.sessions_modify_rec p _ (m.record (.invoked c)) j (.inr (.inr hp))
        fun _ => .inl (.refl _)
    · exact .inl (.refl _)
  cases h with
  | @enterPath k p fin m hk =>
      refine enter (hf p ?_)
      obtain ⟨n, kind⟩ := k
      cases hk
      rfl
  | @enterFailure p m => exact enter (hf p rfl)
  | enterDock hk | enterUndock hk | reset | reportFailed => exact .inl (.refl _)
  | reportArrived => split <;> exact .inl (.refl _)

theorem StatusStep.zenohStep [DecidableEq G] {alive : SessionId → Bool} {t t' : StatusThread G}
    {m m' : Mem G W} (h : StatusStep alive t m m' t') (ht : t.Fires (TakenFrom m.log)) :
    ZenohStep m m' := by
  have ended {i : SessionId} {f : Firing} (hf : TakenFrom m.log i f) (p : SessionId)
      (hp : f.path? = some p) : ∃ g st, .status p g st ∈ m.log := by
    obtain rfl := hf.path hp
    obtain ⟨c, hc, -⟩ := hf
    obtain ⟨g, st, hst, -⟩ := hc.status
    exact ⟨g, st, hst⟩
  have goal {i j : SessionId} {g : G} {e : Event G W} (hg : (m.sessions i).goalId = some g) :
      SameCallbacks (m.sessions j) (((m.record e).modify i .invalidate).sessions j) ∨
        (m.sessions j).goalId ≠ none ∨ ∃ g st, .status j g st ∈ m.log := by
    refine Mem.sessions_modify_rec i _ (m.record e) j (.inr (.inl ?_)) fun _ => .inl (.refl _)
    rw [hg]
    exact Option.some_ne_none g
  cases h with
  | quiet => exact (Tame.refl m).zenohStep rfl
  | silent hg hst hc =>
      refine ⟨.status _ hg, fun j => ?_⟩
      split
      · exact goal hg
      · exact .inl (.refl _)
  | @take _ _ _ st _ _ hg hst hc =>
      have hs := Tame.status st hg
      rw [terminal_of_closureFor hc, if_pos rfl] at hs
      exact ⟨hs, fun j => goal hg⟩
  | fire h => exact h.zenohStep (ended ht)
  | fired h => exact h.zenohStep (ended ht)

/-- An update invalidates nothing. -/
theorem UpdateStep.zenohStep {u u' : UpdateThread} {m m' : Mem G W}
    (h : UpdateStep u m m' u') : ZenohStep m m' := by
  cases h with
  | read => exact (Tame.refl m).zenohStep rfl
  | drainTake => exact .modify ⟨rfl, rfl, rfl, rfl, rfl, rfl⟩
  | drainForward | replan => exact (Tame.record m rfl).zenohStep rfl
  | takeFailure => exact ((Tame.setPendingFailure m false).trans (.record _ rfl)).zenohStep rfl

theorem FeedbackThread.zenohStep [DecidableEq G] (alive : SessionId → Bool) (t : FeedbackThread G)
    (m : Mem G W) : ZenohStep m (t.step alive m).1 := by
  cases t with
  | idle | lock _ _ | check _ _ _ | snapshot _ _ _ | estimate _ _ _ _ =>
      exact (Tame.refl m).zenohStep rfl
  | store _ _ _ _ | index _ _ _ _ | buffer _ _ _ _ =>
      exact .modify ⟨rfl, rfl, rfl, rfl, rfl, rfl⟩

end EgbFleet
