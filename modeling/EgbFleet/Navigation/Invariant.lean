import EgbFleet.Navigation.Provenance

/-!
# Navigation — the invariant of the executor

`ExecOk` says, for each place the executor can be, what it knows of the path it is setting up or
of the job it has sent: the session of the path has not been started before its goal is
installed, and afterwards it holds that goal or has been invalidated.  `NavInv` puts it together
with what holds of the memory and of the status callbacks; `NavInv.reach` is for every schedule.
-/

namespace EgbFleet

variable {G W : Type}

/-! ### The executor's place -/

/-- The requests the callers of `execute_path` make. -/
inductive PathRequest.Made : PathRequest G W → Prop where
  | follow (f : FollowJob G W) : Made f.request
  | dock (ws : List W) (finished : Bool) (net : Network G) :
      Made ⟨.dock, ws, if finished then some .dock else none, none, net⟩
  | undock (a : ActionId) (ws : List W) (net : Network G) :
      Made ⟨.undock a, ws, some (.undock a), none, net⟩

/-- Session `p` exists, has never had a goal, and no status has been processed for it. -/
structure Unstarted (m : Mem G W) (p : SessionId) : Prop where
  lt : p < m.nextSession
  goalId : (m.sessions p).goalId = none
  unseen : ∀ g st, .status p g st ∉ m.log

/-- `follow_new_path` is still setting up its path. -/
structure Setup (m : Mem G W) (f : FollowJob G W) : Prop where
  unstarted : Unstarted m f.path
  undrawn : ∀ g, ¬ PathGoal m.log f.path g
  fresh : m.Fresh f.net.goalId

/-- `execute_path` is under way in session `i`, or without one. -/
structure JobOk (h : List (Event G W)) (j : PathJob G W) (i : Option SessionId) : Prop where
  made : j.request.Made
  goal : .goal j.call j.request.net.goalId j.completion ∈ h
  follow : ∀ p, j.request.caller = .follow p → i = some p
  drawn : ∀ p, i = some p → ∃ g, PathGoal h p g

/-- Job `j` has installed its goal in session `i`, which may have been invalidated since. -/
def Installed (m : Mem G W) (j : PathJob G W) (i : SessionId) : Prop :=
  (m.sessions i).goalId = none ∨
    ((m.sessions i).goalId = some j.request.net.goalId ∧
      (m.sessions i).completionCallback = j.completion ∧ (m.sessions i).done = false)

/-- What the executor knows where it is. -/
def ExecOk (m : Mem G W) : Exec G W → Prop
  | .invalidateOld f old => Setup m f ∧ old ≠ f.path
  | .armSession f => Setup m f
  | .setSession f => Setup m f ∧ (m.sessions f.path).failureCallback = some f.path
  | .executePath f =>
      Setup m f ∧ (m.sessions f.path).failureCallback = some f.path ∧ m.sessionWp = some f.path
  | .install j i =>
      JobOk m.log j (some i) ∧ ∀ p, j.request.caller = .follow p →
        Unstarted m p ∧ (m.sessions p).failureCallback = some p
  | .sendGoal j i | .awaitReply j i | .notAccepted j i =>
      JobOk m.log j (some i) ∧ Installed m j i
  | .fire j i f => JobOk m.log j i ∧ ∃ k, j.completion = some k ∧ f.Of (.completion k)
  | .idle | .stopCancel _ | .stopRead | .stopInvalidate _ | .stopReset _ | .stopClear _
  | .cancel _ => True

/-- The path whose session `set_session` has just announced, before its goal is drawn. -/
def Exec.announces? : Exec G W → Option SessionId
  | .executePath f => some f.path
  | _ => none

def Caller.path? : Caller → Option SessionId
  | .follow p => some p
  | .dock | .undock _ => none

/-- The path whose `follow_new_path` is running. -/
def Exec.follows? : Exec G W → Option SessionId
  | .invalidateOld f _ | .armSession f | .setSession f | .executePath f => some f.path
  | .install j _ | .sendGoal j _ | .awaitReply j _ | .notAccepted j _ | .fire j _ _ =>
      j.request.caller.path?
  | _ => none

theorem Caller.path?_eq_some {c : Caller} {p : SessionId} :
    c.path? = some p ↔ c = .follow p := by
  cases c <;> simp [Caller.path?]

/-- What holds of the memory and the executor together. -/
structure NavOk (m : Mem G W) (e : Exec G W) : Prop where
  mem : MemOk m
  wp : ∀ p, m.sessionWp = some p → e.announces? = some p ∨ ∃ g, PathGoal m.log p g
  follows : ∀ p, e.follows? = some p → m.session = none ∨ m.session = some p
  exec : ExecOk m e

/-! ### Under the steps of another thread -/

theorem Mem.fresh_iff {m : Mem G W} {g : G} : m.Fresh g ↔ ∀ c k, .goal c g k ∉ m.log := by
  refine ⟨fun h c k hm => h _ hm rfl, fun h e he hd => ?_⟩
  cases e with
  | goal c g' k => cases hd; exact h c k he
  | _ => cases hd

theorem SameGoals.fresh {m m' : Mem G W} (h : SameGoals m m') {g : G} (hg : m.Fresh g) :
    m'.Fresh g :=
  Mem.fresh_iff.mpr fun c k hm => Mem.fresh_iff.mp hg c k (h.back hm)

theorem Unstarted.same {m m' : Mem G W} {p : SessionId} (hp : Unstarted m p)
    (h : ZenohStep m m') : SameCallbacks (m.sessions p) (m'.sessions p) := by
  rcases h.live p with e | hg | ⟨g, st, hst⟩
  · exact e
  · exact absurd hp.goalId hg
  · exact absurd hst (hp.unseen g st)

/-- A path that has not been started stays so while its session keeps having no goal. -/
theorem Unstarted.tame {m m' : Mem G W} {p : SessionId} (hp : Unstarted m p) (h : Tame m m') :
    Unstarted m' p where
  lt := hp.lt.trans_le h.goals.nextSession
  goalId := by
    rcases h.sessions p with e | e
    · rw [e.goalId, hp.goalId]
    · exact e.goalId
  unseen := fun g st hst => by
    rcases h.statuses hst with hst | ⟨hg, -⟩
    · exact hp.unseen g st hst
    · rw [hp.goalId] at hg; cases hg

theorem Setup.tame {m m' : Mem G W} {f : FollowJob G W} (hf : Setup m f) (h : Tame m m') :
    Setup m' f :=
  ⟨hf.unstarted.tame h, fun g hg => hf.undrawn g (h.goals.pathGoal hg), h.goals.fresh hf.fresh⟩

theorem JobOk.mono {h h' : List (Event G W)} (hs : h <:+ h') {j : PathJob G W}
    {i : Option SessionId} (hj : JobOk h j i) : JobOk h' j i :=
  ⟨hj.made, hs.subset hj.goal, hj.follow,
    fun p hp => let ⟨g, hg⟩ := hj.drawn p hp; ⟨g, hg.mono hs⟩⟩

theorem Installed.tame {m m' : Mem G W} {j : PathJob G W} {i : SessionId} (hi : Installed m j i)
    (h : Tame m m') : Installed m' j i := by
  rcases h.sessions i with e | e
  · unfold Installed
    rw [e.goalId, e.completion, e.done]
    exact hi
  · exact .inl e.goalId

theorem ExecOk.zenoh {m m' : Mem G W} {e : Exec G W} (he : ExecOk m e) (h : ZenohStep m m') :
    ExecOk m' e := by
  have ht := h.toTame
  cases e with
  | invalidateOld f old => exact ⟨he.1.tame ht, he.2⟩
  | armSession f => exact Setup.tame he ht
  | setSession f => exact ⟨he.1.tame ht, (he.1.unstarted.same h).failure.trans he.2⟩
  | executePath f =>
      exact ⟨he.1.tame ht, (he.1.unstarted.same h).failure.trans he.2.1,
        h.sessionWp.trans he.2.2⟩
  | install j i =>
      exact ⟨he.1.mono h.goals.suffix, fun p hp =>
        let ⟨hu, hf⟩ := he.2 p hp
        ⟨hu.tame ht, (hu.same h).failure.trans hf⟩⟩
  | sendGoal j i | awaitReply j i | notAccepted j i =>
      exact ⟨he.1.mono h.goals.suffix, he.2.tame ht⟩
  | fire j i f => exact ⟨he.1.mono h.goals.suffix, he.2⟩
  | _ => trivial

/-- The executor stays where it is, or moves to a place it need know nothing new at. -/
theorem NavOk.tame {m m' : Mem G W} {e e' : Exec G W} (hm : NavOk m e) (h : Tame m m')
    (ha : e'.announces? = e.announces?)
    (hf : ∀ p, e'.follows? = some p → e.follows? = some p) (he : ExecOk m' e') :
    NavOk m' e' where
  mem := h.memOk hm.mem
  wp := fun p hp => by
    rcases hm.wp p (h.sessionWp ▸ hp) with hp | ⟨g, hg⟩
    · exact .inl (ha.trans hp)
    · exact .inr ⟨g, hg.mono h.goals.suffix⟩
  follows := fun p hp => by
    rcases h.session with e | e
    · rw [e]; exact hm.follows p (hf p hp)
    · exact .inl e
  exec := he

theorem NavOk.zenoh {m m' : Mem G W} {e : Exec G W} (hm : NavOk m e) (h : ZenohStep m m') :
    NavOk m' e :=
  hm.tame h.toTame rfl (fun _ => id) (hm.exec.zenoh h)

/-! ### `execute_path` -/

theorem GoalsOk.drawGoal {m : Mem G W} (hm : GoalsOk m) {r : PathRequest G W}
    (hg : m.Fresh r.net.goalId)
    (hp : ∀ p finished, r.callback = some (.path p finished) →
      p < m.nextSession ∧ ∀ g, ¬ PathGoal m.log p g) : GoalsOk (m.drawGoal r) := by
  -- a goal event of the new log is the one just recorded, or an old one
  have mem {c g k} (h : (.goal c g k : Event G W) ∈ (m.drawGoal r).log) :
      (c = m.nextCall ∧ g = r.net.goalId ∧ k = r.callback.map (.mk m.nextCall)) ∨
        (.goal c g k ∈ m.log ∧ c < m.nextCall ∧ g ≠ r.net.goalId) := by
    rcases List.mem_cons.mp h with e | h
    · cases e; exact .inl ⟨rfl, rfl, rfl⟩
    · exact .inr ⟨h, hm.call_lt h, fun e => Mem.fresh_iff.mp hg c k (e ▸ h)⟩
  have path {p g} (h : PathGoal (m.drawGoal r).log p g) :
      (g = r.net.goalId ∧ ∃ finished, r.callback = some (.path p finished)) ∨
        PathGoal m.log p g := by
    obtain ⟨c, fin, h⟩ := h
    rcases mem h with ⟨rfl, hgo, hk⟩ | ⟨h, -⟩
    · obtain ⟨k, hk, hk'⟩ := Option.map_eq_some_iff.mp hk.symm
      cases hk'
      exact .inl ⟨hgo, fin, hk⟩
    · exact .inr ⟨c, fin, h⟩
  exact {
    call_lt := fun h => by
      rcases mem h with ⟨rfl, -⟩ | ⟨-, h, -⟩
      · exact Nat.lt_succ_self _
      · exact h.trans (Nat.lt_succ_self _)
    tagged := fun h => by
      rcases mem h with ⟨rfl, -, hk⟩ | ⟨h, -⟩
      · obtain ⟨k, -, rfl⟩ := Option.map_eq_some_iff.mp hk.symm; rfl
      · exact hm.tagged h
    goal_inj := fun h h' => by
      rcases mem h with ⟨rfl, rfl, rfl⟩ | ⟨h, -, hn⟩ <;>
        rcases mem h' with ⟨rfl, hg', rfl⟩ | ⟨h', -, hn'⟩
      · exact ⟨rfl, rfl⟩
      · exact absurd rfl hn'
      · exact absurd hg' hn
      · exact hm.goal_inj h h'
    call_inj := fun h h' => by
      rcases mem h with ⟨rfl, rfl, rfl⟩ | ⟨h, hn, -⟩ <;>
        rcases mem h' with ⟨hc, rfl, rfl⟩ | ⟨h', hn', -⟩
      · exact ⟨rfl, rfl⟩
      · exact absurd hn' (Nat.lt_irrefl _)
      · rw [hc] at hn; exact absurd hn (Nat.lt_irrefl _)
      · exact hm.call_inj h h'
    path_lt := fun h => by
      rcases path h with ⟨-, fin, hk⟩ | h
      · exact (hp _ fin hk).1
      · exact hm.path_lt h
    path_inj := fun h h' => by
      rcases path h with ⟨rfl, fin, hk⟩ | h <;> rcases path h' with ⟨rfl, fin', hk'⟩ | h'
      · rfl
      · exact absurd h' ((hp _ fin hk).2 _)
      · exact absurd h ((hp _ fin' hk').2 _)
      · exact hm.path_inj h h' }

theorem pathGoal_drawGoal {m : Mem G W} {r : PathRequest G W} {p : SessionId} {g : G}
    (h : PathGoal (m.drawGoal r).log p g) : g = r.net.goalId ∨ PathGoal m.log p g := by
  obtain ⟨c, fin, h⟩ := h
  rcases List.mem_cons.mp h with e | h
  · injection e with _ hg; exact .inl hg
  · exact .inr ⟨c, fin, h⟩

theorem MemOk.drawGoal {m : Mem G W} (hm : MemOk m) {r : PathRequest G W}
    (hg : m.Fresh r.net.goalId)
    (hp : ∀ p finished, r.callback = some (.path p finished) →
      p < m.nextSession ∧ ∀ g, ¬ PathGoal m.log p g) : MemOk (m.drawGoal r) where
  goals := hm.goals.drawGoal hg hp
  sessions := fun i => (hm.sessions i).mono (List.suffix_cons _ _)
  own := fun i g hi h => by
    rcases pathGoal_drawGoal h with rfl | h
    · obtain ⟨⟨c, hc⟩, -⟩ := (hm.sessions i).goal _ hi
      exact absurd hc (Mem.fresh_iff.mp hg _ _)
    · exact hm.own i g hi h
  ended := fun hst => by
    rcases List.mem_cons.mp hst with e | hst
    · cases e
    · obtain ⟨⟨g, hp⟩, hu⟩ := hm.ended hst
      exact ⟨⟨g, hp.mono (List.suffix_cons _ _)⟩, hu⟩
  session_lt := hm.session_lt

/-- Session `i` is rewritten. -/
theorem MemOk.modify {m : Mem G W} (hm : MemOk m) {i : SessionId}
    {f : NavigationSession G → NavigationSession G}
    (hσ : SessionOk m.log i (f (m.sessions i)))
    (own : ∀ g, (f (m.sessions i)).goalId = some g → PathGoal m.log i g →
      (f (m.sessions i)).failureCallback = some i)
    (ended : ∀ g st, .status i g st ∈ m.log → st.terminal = true → Unarmed (f (m.sessions i))) :
    MemOk (m.modify i f) where
  goals :=
    have h : SameGoals m (m.modify i f) := .of_log rfl le_rfl le_rfl
    h.goalsOk hm.goals
  sessions := fun j => Mem.sessions_modify_rec i f m j hσ fun _ => hm.sessions j
  own := fun j => Mem.sessions_modify_rec i f m j own fun _ => hm.own j
  ended := fun {j g st} =>
    Mem.sessions_modify_rec i f m j (fun hst => ⟨(hm.ended hst).1, ended g st hst⟩)
      fun _ => hm.ended
  session_lt := hm.session_lt

/-- The completion callback of a job is of the path it follows, if it is of a path at all. -/
theorem PathRequest.Made.path {r : PathRequest G W} (hr : r.Made) {c : CallId} {k : Completion}
    (hk : r.callback.map (.mk c) = some k) {p : SessionId}
    (hp : (Closure.completion k).path? = some p) : r.caller = .follow p := by
  cases hr with
  | follow f => cases hk; cases hp; rfl
  | dock ws fin net =>
      cases fin with
      | true => cases hk; cases hp
      | false => cases hk
  | undock a ws net => cases hk; cases hp

theorem PathRequest.Made.estimator {r : PathRequest G W} (hr : r.Made) {p : SessionId}
    (hp : r.estimator = some p) :
    r.caller = .follow p ∧ ∃ finished, r.callback = some (.path p finished) := by
  cases hr with
  | follow f =>
      simp only [FollowJob.request] at hp
      split at hp
      · cases hp; exact ⟨rfl, f.finished, rfl⟩
      · cases hp
  | dock ws fin net => cases hp
  | undock a ws net => cases hp

theorem NavOk.install {m : Mem G W} {j : PathJob G W} {i : SessionId}
    (hm : NavOk m (.install j i)) :
    NavOk (m.modify i (.install j.request.net.goalId j.completion j.request.estimator))
      (.sendGoal j i) where
  mem := by
    obtain ⟨hj, hu⟩ := hm.exec
    have follow {p} (hp : j.request.caller = .follow p) : p = i :=
      (Option.some.inj (hj.follow p hp)).symm
    have hi := hm.mem.sessions i
    refine hm.mem.modify ⟨hi.failure, hi.rmf, ?_, ?_, ?_, ?_⟩ ?_ ?_
    · rintro g ⟨⟩
      exact ⟨⟨_, hj.goal⟩, hj.drawn i rfl⟩
    · exact fun k _ => Option.some_ne_none _
    · exact fun k hk p hp => follow (hj.made.path hk hp)
    · intro p hp
      obtain ⟨hc, fin, hk⟩ := hj.made.estimator hp
      obtain rfl := follow hc
      refine ⟨rfl, j.call, fin, ?_⟩
      change j.request.callback.map _ = _
      rw [hk]
      rfl
    · rintro g ⟨⟩ ⟨c, fin, hc⟩
      obtain ⟨-, hk⟩ := hm.mem.goals.goal_inj hj.goal hc
      exact (hu i (hj.made.path hk rfl)).2
    · intro g st hst ht
      refine ⟨((hm.mem.ended hst).2 ht).failure, fun k hk => Option.eq_none_iff_forall_ne_some.mpr
        fun p hp => ?_⟩
      have hc := hj.made.path hk hp
      obtain rfl := follow hc
      exact (hu p hc).1.unseen g st hst
  wp := fun p hp => .inr ((hm.wp p hp).resolve_left fun h => by cases h)
  follows := hm.follows
  exec := ⟨hm.exec.1, .inr (by rw [Mem.sessions_modify_self]; exact ⟨rfl, rfl, rfl⟩)⟩

theorem NavOk.idle {m m' : Mem G W} {e : Exec G W} (hm : NavOk m e) (h : Tame m m')
    (ha : e.announces? = none) : NavOk m' .idle :=
  hm.tame h ha.symm nofun trivial

/-- `execute_path`, called when nothing is being announced (`dock`, the undock action) or when
the path's own session has been. -/
theorem PathStep.navOk {alive : SessionId → Bool} {r : PathRequest G W} {m m' : Mem G W}
    {e' : Exec G W} (h : PathStep alive r m m' e') (hm : MemOk m) (hr : r.Made)
    (hg : m.Fresh r.net.goalId)
    (hwp : ∀ p, m.sessionWp = some p →
      r.caller.path? = some p ∨ r.caller.path? = none ∧ ∃ g, PathGoal m.log p g)
    (hp : ∀ p, r.caller.path? = some p → Unstarted m p ∧ (∀ g, ¬ PathGoal m.log p g) ∧
      (m.sessions p).failureCallback = some p ∧ m.lock alive = some p)
    (hs : ∀ p, r.caller.path? = some p → m.session = none ∨ m.session = some p) :
    NavOk m' e' := by
  have hmem : MemOk (m.drawGoal r) := by
    refine hm.drawGoal hg fun p fin hk => ?_
    have hc := hr.path (c := m.nextCall) (congrArg (Option.map _) hk) rfl
    obtain ⟨hu, hn, -, -⟩ := hp p (Caller.path?_eq_some.mpr hc)
    exact ⟨hu.lt, hn⟩
  -- the goal just drawn is the path's own, if a path's request it is
  have drawn {p : SessionId} (hc : r.caller.path? = some p) :
      PathGoal (m.drawGoal r).log p r.net.goalId := by
    cases hr with
    | follow f => cases hc; exact ⟨_, f.finished, List.mem_cons_self⟩
    | dock | undock => cases hc
  have wp {p : SessionId} (h : m.sessionWp = some p) : ∃ g, PathGoal (m.drawGoal r).log p g := by
    rcases hwp p h with hc | ⟨-, g, hg⟩
    · exact ⟨_, drawn hc⟩
    · exact ⟨g, hg.mono (List.suffix_cons _ _)⟩
  have lost (hi : m.lock alive = none) (p : SessionId) : r.caller ≠ .follow p := fun hc => by
    obtain ⟨-, -, -, hl⟩ := hp p (Caller.path?_eq_some.mpr hc)
    rw [hi] at hl; cases hl
  cases h with
  | @locked i lanes hi =>
      refine ⟨hmem, fun p h => .inr (wp h), hs, ⟨hr, List.mem_cons_self, ?_, ?_⟩, ?_⟩
      · intro p hc
        obtain ⟨-, -, -, hl⟩ := hp p (Caller.path?_eq_some.mpr hc)
        exact hi.symm.trans hl
      · rintro p ⟨⟩
        exact wp (Mem.lock_eq_some.mp hi).1
      · intro p hc
        obtain ⟨hu, -, hf, -⟩ := hp p (Caller.path?_eq_some.mpr hc)
        refine ⟨⟨hu.lt, hu.goalId, fun g st hst => ?_⟩, hf⟩
        rcases List.mem_cons.mp hst with e | hst
        · cases e
        · exact hu.unseen g st hst
  | @lost k lanes hi hk =>
      refine ⟨hmem, fun p h => .inr (wp h), hs, ⟨hr, List.mem_cons_self, ?_, ?_⟩, _, ?_, .enter⟩
      · exact fun p hc => absurd hc (lost hi p)
      · rintro p ⟨⟩
      · exact congrArg (Option.map _) hk
  | lostSilent hi hk =>
      have ht := Tame.returnFrom r.caller (m.drawGoal r)
      refine ⟨ht.memOk hmem, fun p h => ?_, fun p h => (by cases h), trivial⟩
      obtain ⟨g, hg⟩ := wp (ht.sessionWp ▸ h)
      exact .inr ⟨g, hg.mono ht.goals.suffix⟩

/-- `execute_path` called by `dock` or by the undock action. -/
theorem PathStep.navOk_of_idle {alive : SessionId → Bool} {r : PathRequest G W} {m m' : Mem G W}
    {e' : Exec G W} (h : PathStep alive r m m' e') (hm : NavOk m .idle) (hr : r.Made)
    (hc : r.caller.path? = none) (hg : m.Fresh r.net.goalId) : NavOk m' e' := by
  have no {p : SessionId} {P : Prop} (hp : r.caller.path? = some p) : P := by
    rw [hc] at hp; cases hp
  refine h.navOk hm.mem hr hg (fun p hp => .inr ⟨hc, ?_⟩) (fun p hp => no hp) (fun p hp => no hp)
  exact (hm.wp p hp).resolve_left fun h => by cases h

/-! ### The executor's steps -/

theorem MemOk.setSessionWp {m : Mem G W} (hm : MemOk m) (p : SessionId) :
    MemOk (m.setSessionWp p) where
  goals :=
    have h : SameGoals m (m.setSessionWp p) := .of_log rfl le_rfl le_rfl
    h.goalsOk hm.goals
  sessions := hm.sessions
  own := hm.own
  ended := hm.ended
  session_lt := hm.session_lt

theorem MemOk.setSession {m : Mem G W} (hm : MemOk m) {p : SessionId} (hp : p < m.nextSession) :
    MemOk (m.setSession (some p)) where
  goals :=
    have h : SameGoals m (m.setSession (some p)) := .of_log rfl le_rfl le_rfl
    h.goalsOk hm.goals
  sessions := hm.sessions
  own := hm.own
  ended := hm.ended
  session_lt := fun i hi => by cases hi; exact hp

theorem MemOk.markDone {m : Mem G W} (hm : MemOk m) (i : SessionId) :
    MemOk (m.modify i .markDone) :=
  have h := hm.sessions i
  hm.modify ⟨h.failure, h.rmf, h.goal, h.completion, h.path, h.estimator⟩ (hm.own i)
    fun _ _ hst ht => let u := (hm.ended hst).2 ht; ⟨u.failure, u.completion⟩

theorem NavOk.markDone {m : Mem G W} {e : Exec G W} (hm : NavOk m e) {i : SessionId}
    {e' : Exec G W} (ha : e'.announces? = e.announces?)
    (hf : ∀ p, e'.follows? = some p → e.follows? = some p)
    (he : ExecOk (m.modify i .markDone) e') : NavOk (m.modify i .markDone) e' :=
  ⟨hm.mem.markDone i, fun p hp => ha ▸ hm.wp p hp, fun p hp => hm.follows p (hf p hp), he⟩

theorem NavOk.arm {m : Mem G W} {f : FollowJob G W} (hm : NavOk m (.armSession f)) :
    NavOk (m.modify f.path (.arm f.path f.estimator)) (.setSession f) where
  mem := by
    have hf : Setup m f := hm.exec
    have hi := hm.mem.sessions f.path
    refine hm.mem.modify ⟨?_, ?_, hi.goal, hi.completion, hi.path, hi.estimator⟩ ?_ ?_
    · rintro p ⟨⟩; rfl
    · intro p hp
      simp only [NavigationSession.arm] at hp
      split at hp
      · cases hp; rfl
      · cases hp
    · exact fun g hg _ => absurd (hf.unstarted.goalId.symm.trans hg) (by simp)
    · exact fun g st hst _ => absurd hst (hf.unstarted.unseen g st)
  wp := hm.wp
  follows := hm.follows
  exec := by
    have hf : Setup m f := hm.exec
    refine ⟨⟨⟨hf.unstarted.lt, ?_, hf.unstarted.unseen⟩, hf.undrawn, hf.fresh⟩, ?_⟩
    · rw [Mem.sessions_modify_self]; exact hf.unstarted.goalId
    · rw [Mem.sessions_modify_self]; rfl

/-- The callback the rejection branch copies is the one its own call was given. -/
theorem Installed.completion {m : Mem G W} (hm : MemOk m) {j : PathJob G W} {i : SessionId}
    (hi : Installed m j i) {k : Completion} (hk : (m.sessions i).completionCallback = some k) :
    j.completion = some k := by
  rcases hi with hg | ⟨-, hc, -⟩
  · exact absurd hg ((hm.sessions i).completion k hk)
  · exact hc.symm.trans hk

theorem ExecStep.navOk {alive : SessionId → Bool} {e e' : Exec G W} {m m' : Mem G W}
    (h : ExecStep alive e m m' e') (hm : NavOk m e)
    (halive : ∀ i, e.holds i = true → alive i = true) : NavOk m' e' := by
  cases h with
  | invalidateOld =>
      exact hm.tame (.invalidate _ _) rfl (fun _ => id) (hm.exec.1.tame (.invalidate _ _))
  | armSession =>
      have ht : Tame m ((m.setPendingFailure false).record .unflagged) :=
        (Tame.setPendingFailure m false).trans (.record _ rfl)
      exact (hm.tame ht rfl (fun _ => id) (Setup.tame hm.exec ht)).arm
  | @setSession f m =>
      exact ⟨hm.mem.setSessionWp _, fun p hp => .inl hp, hm.follows,
        ⟨⟨hm.exec.1.unstarted.lt, hm.exec.1.unstarted.goalId, hm.exec.1.unstarted.unseen⟩,
          hm.exec.1.undrawn, hm.exec.1.fresh⟩, hm.exec.2, rfl⟩
  | @executePath f m m' e' h =>
      obtain ⟨hf, hfail, hwp⟩ := hm.exec
      refine h.navOk hm.mem (.follow f) hf.fresh (fun p hp => .inl (hwp.symm.trans hp)) ?_
        hm.follows
      rintro p ⟨⟩
      exact ⟨hf.unstarted, hf.undrawn, hfail,
        Mem.lock_eq_some.mpr ⟨hwp, halive _ (beq_self_eq_true _)⟩⟩
  | install => exact hm.install
  | @handOver j i m =>
      have ht : Tame m (m.record (.sent j.call j.request.net.goalId j.request.waypoints j.lanes)) :=
        .record _ rfl
      exact hm.tame ht rfl (fun _ => id) ⟨hm.exec.1.mono ht.goals.suffix, hm.exec.2.tame ht⟩
  | accepted => exact hm.idle (.returnFrom _ _) rfl
  | refused => exact hm.tame (.refl _) rfl (fun _ => id) hm.exec
  | notAccepted hk =>
      exact hm.markDone rfl (fun _ => id)
        ⟨hm.exec.1, _, hm.exec.2.completion hm.mem hk, .enter⟩
  | @notAcceptedSilent j i m hk =>
      have hd : NavOk (m.modify i .markDone) .idle :=
        hm.markDone rfl nofun trivial
      exact hd.idle (.returnFrom _ _) rfl
  | fire h =>
      obtain ⟨hj, k, hk, hf⟩ := hm.exec
      exact hm.tame h.tame rfl (fun _ => id) ⟨hj.mono h.tame.goals.suffix, k, hk, h.of hf⟩
  | fired h => exact hm.idle (h.tame.trans (.returnFrom _ _)) rfl
  | stopCancel | cancel =>
      refine hm.tame ?_ rfl nofun trivial
      split
      · exact .invalidate _ _
      · exact .refl _
  | stopInvalidate => exact hm.tame (.invalidate _ _) rfl nofun trivial
  | stopReset => exact hm.tame (.setSession _) rfl nofun trivial
  | stopClear =>
      exact hm.idle (((Tame.setPendingFailure m false).trans (.record _ rfl)).trans
        (.record _ rfl)) rfl
  | stopRead | stopReadNone =>
      exact hm.tame (.refl m) rfl nofun trivial

/-! ### The executor's calls -/

theorem MemOk.newSession {m : Mem G W} (hm : MemOk m) (limits : List ℚ) :
    MemOk (m.newSession limits) where
  goals :=
    have h : SameGoals m (m.newSession limits) := .of_log rfl le_rfl (Nat.le_succ _)
    h.goalsOk hm.goals
  sessions := fun i =>
    Mem.sessions_newSession_rec m limits i (.initial rfl rfl rfl rfl rfl) fun _ => hm.sessions i
  own := fun i => Mem.sessions_newSession_rec m limits i nofun fun _ => hm.own i
  ended := fun {i _ _} =>
    Mem.sessions_newSession_rec m limits i
      (fun hst => ⟨(hm.ended hst).1, fun _ => ⟨rfl, nofun⟩⟩) fun _ => hm.ended
  session_lt := fun i hi => (hm.session_lt i hi).trans (Nat.lt_succ_self _)

/-- The session `follow_new_path` makes and stores. -/
theorem NavOk.follow {m : Mem G W} (hm : NavOk m .idle) (limits : List ℚ) {ws : List W}
    {estimator finished : Bool} {net : Network G} (hg : m.Fresh net.goalId) :
    NavOk (((m.newSession limits).record (.followed m.nextSession ws)).setSession
        (some m.nextSession))
      (.armSession ⟨m.nextSession, ws, estimator, finished, net⟩) := by
  have ht : Tame (m.newSession limits)
      ((m.newSession limits).record (.followed m.nextSession ws)) :=
    .record _ rfl
  have hm' := ht.memOk (hm.mem.newSession limits)
  have h₀ : SameGoals m (m.newSession limits) := .of_log rfl le_rfl (Nat.le_succ _)
  have hn := h₀.trans ht.goals
  have undrawn (g : G) : ¬ PathGoal m.log m.nextSession g := fun h =>
    (hm.mem.goals.path_lt h).ne rfl
  refine ⟨hm'.setSession (Nat.lt_succ_self _), ?_, ?_,
    ⟨⟨Nat.lt_succ_self _, ?_, ?_⟩, ?_, ?_⟩⟩
  · intro p hp
    obtain ⟨g, h⟩ := (hm.wp p hp).resolve_left fun h => by cases h
    exact .inr ⟨g, h.mono hn.suffix⟩
  · rintro p ⟨⟩; exact .inr rfl
  · simp
  · intro g st hst
    rcases List.mem_cons.mp hst with e | hst
    · cases e
    · obtain ⟨⟨g', hp⟩, -⟩ := hm.mem.ended hst
      exact undrawn g' hp
  · exact fun g h => undrawn g (hn.pathGoal h)
  · exact hn.fresh hg

theorem CallStep.navOk {alive : SessionId → Bool} {c : Call G W} {e' : Exec G W} {m m' : Mem G W}
    (h : CallStep alive c m m' e') (hm : NavOk m .idle) (hg : ∀ g, c.goalId? = some g → m.Fresh g) :
    NavOk m' e' := by
  cases h with
  | @followEmpty limits est fin net m =>
      have hn : NavOk (m.newSession limits) .idle := by
        refine ⟨hm.mem.newSession limits, fun p hp => ?_, nofun, trivial⟩
        exact hm.wp p hp
      have h₁ : Tame (m.newSession limits)
        ((m.newSession limits).record (.followed m.nextSession [])) := .record _ rfl
      refine hn.idle (.trans ?_ (.record _ rfl)) rfl
      split
      · exact h₁.trans (.record _ rfl)
      · exact h₁
  | follow hws hs => exact hm.follow _ (hg _ rfl)
  | followOver hws hs =>
      obtain ⟨hmem, hwp, hf, he⟩ := hm.follow _ (hg _ rfl)
      exact ⟨hmem, hwp, hf, he, (hm.mem.session_lt _ hs).ne⟩
  | stop hi | stopNone hi | cancelNavigation hi | cancelNone hi =>
      exact hm.tame (.record _ rfl) rfl nofun trivial
  | noDock =>
      refine hm.idle ?_ rfl
      split
      · exact .record _ rfl
      · exact .refl _
  | @dock ws _ _ m _ _ h =>
      have ht : Tame m (m.record (.dockPlanned m.nextCall ws)) := .record _ rfl
      exact h.navOk_of_idle (hm.idle ht rfl) (.dock _ _ _) rfl (ht.goals.fresh (hg _ rfl))
  | @undock a _ ws _ m _ _ ha _ _ _ h =>
      have ht : Tame m (m.record (.undockPlanned a m.nextCall ws)) := .record _ rfl
      exact h.navOk_of_idle (hm.idle ht rfl) (.undock _ _ _) rfl (ht.goals.fresh (hg _ rfl))
  | undockReturns hc =>
      exact hm.idle ((Tame.setUndock _ _ _).trans (.record _ rfl)) rfl

/-! ### Every reachable state -/

theorem suffix_returnFrom (c : Caller) (m : Mem G W) : m.log <:+ (m.returnFrom c).log :=
  (Tame.returnFrom c m).goals.suffix

theorem PathStep.suffix {alive : SessionId → Bool} {r : PathRequest G W} {m m' : Mem G W}
    {e' : Exec G W} (h : PathStep alive r m m' e') : m.log <:+ m'.log := by
  cases h with
  | locked | lost => exact List.suffix_cons _ _
  | lostSilent =>
      refine .trans ?_ (suffix_returnFrom _ _)
      exact List.suffix_cons _ _

theorem ExecStep.suffix {alive : SessionId → Bool} {e e' : Exec G W} {m m' : Mem G W}
    (h : ExecStep alive e m m' e') : m.log <:+ m'.log := by
  cases h with
  | executePath h => exact h.suffix
  | accepted => exact suffix_returnFrom _ _
  | notAcceptedSilent =>
      refine .trans ?_ (suffix_returnFrom _ _)
      exact List.suffix_refl _
  | fire h => exact h.tame.goals.suffix
  | fired h => exact h.tame.goals.suffix.trans (suffix_returnFrom _ _)
  | stopCancel | cancel => split <;> exact List.suffix_refl _
  | stopClear => exact (List.suffix_cons _ _).trans (List.suffix_cons _ _)
  | armSession | handOver => exact List.suffix_cons _ _
  | _ => exact List.suffix_refl _

theorem CallStep.suffix {alive : SessionId → Bool} {c : Call G W} {e' : Exec G W} {m m' : Mem G W}
    (h : CallStep alive c m m' e') : m.log <:+ m'.log := by
  cases h with
  | followEmpty =>
      refine .trans ?_ (List.suffix_cons _ _)
      split
      · exact (List.suffix_cons _ _).trans (List.suffix_cons _ _)
      · exact List.suffix_cons _ _
  | noDock =>
      split
      · exact List.suffix_cons _ _
      · exact List.suffix_refl _
  | dock h | undock _ _ _ _ h => exact (List.suffix_cons _ _).trans h.suffix
  | follow | followOver | stop | stopNone | undockReturns | cancelNavigation | cancelNone =>
      exact List.suffix_cons _ _

/-- The invariant of the navigation stack. -/
structure NavInv (s : State G W) : Prop where
  nav : NavOk s.mem s.exec
  status : ∀ t ∈ s.status, t.Fires (TakenFrom s.mem.log)

theorem NavInv.start : NavInv (navStart : State G W) where
  nav := by
    refine ⟨⟨⟨?_, ?_, ?_, ?_, ?_, ?_⟩, ?_, ?_, ?_, ?_⟩, ?_, ?_, trivial⟩
    case refine_7 => exact fun i => .initial rfl rfl rfl rfl rfl
    all_goals simp [navStart, Mem.start, PathGoal, Exec.follows?]
  status := by simp [navStart]

/-- The log only grows. -/
theorem Moves.suffix [DecidableEq G] {s s' : State G W} {a : Action G W} (h : Moves s a s')
    (hs : NavInv s) : s.mem.log <:+ s'.mem.log := by
  cases h with
  | call c idle fresh => exact (callStep s.alive c s.mem).suffix
  | exec busy => exact (execStep s.alive busy s.mem).suffix
  | update => exact (updateStep s.update s.mem).zenohStep.goals.suffix
  | recvStatus entries => exact List.suffix_refl _
  | status k t at_k =>
      exact ((statusStep s.alive t s.mem).zenohStep
        (hs.status t (List.mem_of_getElem? at_k))).goals.suffix
  | recvFeedback msg idle => exact List.suffix_cons _ _
  | feedback => exact (FeedbackThread.zenohStep s.alive s.feedback s.mem).goals.suffix

theorem Exec.alive {s : State G W} {i : SessionId} (h : s.exec.holds i = true) :
    s.alive i = true := by
  simp [State.alive, h]

theorem NavInv.step [DecidableEq G] {s s' : State G W} {a : Action G W} (hs : NavInv s)
    (h : navStep s a = some s') : NavInv s' := by
  have hm := navStep_moves h
  have hlog := hm.suffix hs
  refine ⟨?_, hm.fires hs.status (fun _ _ hf => hf.mono hlog) ?_ ?_⟩
  · cases hm with
    | call c idle fresh => exact (callStep s.alive c s.mem).navOk (idle ▸ hs.nav) fresh
    | exec busy => exact (execStep s.alive busy s.mem).navOk hs.nav fun _ => Exec.alive
    | update => exact hs.nav.zenoh (updateStep s.update s.mem).zenohStep
    | recvStatus entries => exact hs.nav
    | status k t at_k =>
        exact hs.nav.zenoh ((statusStep s.alive t s.mem).zenohStep
          (hs.status t (List.mem_of_getElem? at_k)))
    | recvFeedback msg idle =>
        refine hs.nav.zenoh (Tame.zenohStep (.trans ?_ (.record _ rfl)) rfl)
        exact .of_log (.of_log rfl le_rfl le_rfl) rfl rfl rfl id
    | feedback => exact hs.nav.zenoh (FeedbackThread.zenohStep s.alive s.feedback s.mem)
  · intro k x c _ hx hc hmem
    obtain ⟨_, -, hg, -⟩ := State.finds_eq_some.mp hx
    rw [hmem]
    exact ⟨c, .of_closureFor hs.nav.mem hg hc, .enter⟩
  · intro k i f f' _ hf ⟨c, hc, hof⟩
    exact ⟨c, hc.mono hlog, hf.of hof⟩

/-- **The invariant holds of every state the machine reaches.** -/
theorem NavInv.reach [DecidableEq G] {P : State G W → Action G W → Prop} {s : State G W}
    (h : (navigation G W).Reach P s) : NavInv s :=
  h.invariant .start fun _ _ _ _ hstep hs => hs.step hstep

end EgbFleet
