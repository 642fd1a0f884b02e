import EgbFleet.Navigation.Standing

/-!
# Navigation — every goal's end is told

`status_callback` fires what the session holds when it finds a terminal entry: the completion
callback for `SUCCEEDED`, the failure callback for `ABORTED` and `CANCELED`.  `execute_path`
installs the one and relies on `follow_new_path` for the other, which `invalidate` erases.

A goal is `Covered` while its session holds both.  If goals are installed only where they are
covered (`Heard`), then every terminal entry `status_callback` finds fires exactly the callback it
is owed.  And if besides no session is lost (`Orderly`) and the robot ends a goal only while that
goal stands (`EndsStanding`), then every status message that ends a goal handed over has told
somebody when its callback is done (`terminal_is_told`).

`Firing.tells` is what a running closure has still to write to the log; each of its steps writes
the next part of it (`ClosureStep.tells`), so what the closure comes to is known when it is taken.
-/

namespace EgbFleet

variable {G W : Type}

/-! ### A closure left to itself -/

/-- The steps a running closure has left, at most. -/
def Firing.left : Firing → Nat
  | .enter _ => 3
  | .reset _ => 2
  | .report _ => 1

/-- The action whose `nav_completed_` a running closure will set. -/
def Firing.completes? : Firing → Option ActionId
  | .enter (.completion ⟨_, .undock a⟩) => some a
  | _ => none

theorem ClosureStep.left {alive : SessionId → Bool} {f f' : Firing} {m m' : Mem G W}
    (h : ClosureStep alive f m m' (some f')) : f'.left < f.left := by
  cases h with
  | enterPath | enterFailure | reset => exact Nat.lt_succ_self _

theorem ClosureStep.completes {alive : SessionId → Bool} {f : Firing} {f' : Option Firing}
    {m m' : Mem G W} (h : ClosureStep alive f m m' f') {a : ActionId}
    (ha : f.completes? = some a) : f' = none ∧ (m'.undock a).navCompleted = true := by
  cases h with
  | @enterUndock k b m hk =>
      obtain ⟨c, kind⟩ := k
      cases hk
      cases ha
      simp
  | @enterPath k _ _ _ hk | @enterDock k _ hk =>
      obtain ⟨c, kind⟩ := k
      cases hk
      cases ha
  | enterFailure | reset | reportArrived | reportFailed => cases ha

/-- A status callback that runs a closure, left to itself, runs it to its end. -/
theorem exists_fired [DecidableEq G] {k : Nat} {i : SessionId} :
    ∀ {f : Firing} {s : State G W}, s.status[k]? = some (.fire i f) →
      ∃ n t, (navigation G W).Run (fun _ _ => True) s (List.replicate n (.status k)) t ∧
        t.status[k]? = some .done ∧ t.mem.log = f.tells ++ s.mem.log ∧
        ∀ a, f.completes? = some a → (t.mem.undock a).navCompleted = true := by
  intro f
  induction hn : f.left using Nat.strong_induction_on generalizing f with
  | _ n ih =>
      subst hn
      intro s hk
      have hlt : k < s.status.length := (List.getElem?_eq_some_iff.mp hk).1
      have hstep : (navigation G W).step s (.status k) =
          some { s with
            mem := (StatusThread.step s.alive (.fire i f) s.mem).1
            status := s.status.set k (StatusThread.step s.alive (.fire i f) s.mem).2 } := by
        simp [navigation, navStep, hk, StatusThread.isDone]
      have hc := closureStep s.alive f s.mem
      rcases hf : f.step s.alive s.mem with ⟨m', _ | f'⟩ <;> rw [hf] at hc <;>
        simp only [StatusThread.step, hf] at hstep
      · refine ⟨1, _, .cons trivial hstep (.nil _), List.getElem?_set_self hlt, hc.tells, ?_⟩
        exact fun a ha => (hc.completes ha).2
      · obtain ⟨n, t, hrun, hdone, hlog, -⟩ :=
          ih _ hc.left rfl (s := { s with mem := m', status := s.status.set k (.fire i f') })
            (List.getElem?_set_self hlt)
        refine ⟨n + 1, t, .cons trivial hstep hrun, hdone, hlog.trans hc.tells, fun a ha => ?_⟩
        cases (hc.completes ha).1

/-- Where a status callback is that has found an entry and taken this closure for it. -/
def StatusThread.after (i : SessionId) : Option Closure → StatusThread G
  | some c => .fire i (.enter c)
  | none => .done

/-- What a status callback does with the entry it finds. -/
theorem exists_found [DecidableEq G] {s : State G W} {k : Nat} {x : Found G}
    (hx : s.finds k = some x) :
    ∃ s', navStep s (.status k) = some s' ∧
      s'.status[k]? = some (.after x.session (s.taken x)) ∧
      s'.mem.log = .status x.session x.goal x.status :: s.mem.log := by
  obtain ⟨entries, hk, hg, hst⟩ := State.finds_eq_some.mp hx
  have hlt : k < s.status.length := (List.getElem?_eq_some_iff.mp hk).1
  refine ⟨_, by simp only [navStep, hk, StatusThread.isDone]; rfl, ?_, ?_⟩
  · simp only [StatusThread.step, hg, hst]
    rw [List.getElem?_set_self hlt, State.taken]
    cases (s.mem.sessions x.session).closureFor x.status <;> rfl
  · simp only [StatusThread.step, hg, hst]
    split <;> rfl

/-! ### Covered goals -/

/-- A session with a goal holds a completion callback and a failure callback. -/
def NavigationSession.Covered (σ : NavigationSession G) : Prop :=
  σ.goalId ≠ none → σ.completionCallback ≠ none ∧ σ.failureCallback ≠ none

def Mem.Covered (m : Mem G W) : Prop := ∀ i, (m.sessions i).Covered

theorem NavigationSession.covered_of_goalId {σ : NavigationSession G} (h : σ.goalId = none) :
    σ.Covered := fun hg => absurd h hg

theorem Tame.covered {m m' : Mem G W} (h : Tame m m') (hm : m.Covered) : m'.Covered := by
  intro i
  rcases h.sessions i with e | e
  · intro hg
    rw [e.goalId] at hg
    rw [e.completion, e.failure]
    exact hm i hg
  · exact NavigationSession.covered_of_goalId e.goalId

theorem Mem.Covered.modify {m : Mem G W} (hm : m.Covered) {i : SessionId}
    {f : NavigationSession G → NavigationSession G} (hf : (f (m.sessions i)).Covered) :
    (m.modify i f).Covered :=
  fun j => Mem.sessions_modify_rec i f m j hf fun _ => hm j

theorem Mem.Covered.returnFrom {m : Mem G W} (hm : m.Covered) (c : Caller) :
    (m.returnFrom c).Covered := fun i => by
  rw [Mem.sessions_returnFrom]
  exact hm i

theorem Mem.Covered.newSession {m : Mem G W} (hm : m.Covered) (limits : List ℚ) :
    (m.newSession limits).Covered :=
  fun j => Mem.sessions_newSession_rec m limits j (NavigationSession.covered_of_goalId rfl)
    fun _ => hm j

/-! ### The condition -/

/-- `execute_path` installs a goal only with a completion callback, and in a session that has its
failure callback. -/
def Heard (s : State G W) : Action G W → Prop
  | .exec => ∀ x ∈ s.exec.installing?,
      x.1.request.callback.isSome = true ∧ (s.mem.sessions x.2).failureCallback.isSome = true
  | _ => True

instance (s : State G W) : ∀ a, Decidable (Heard s a)
  | .exec => inferInstanceAs (Decidable (∀ x ∈ s.exec.installing?,
      x.1.request.callback.isSome = true ∧ (s.mem.sessions x.2).failureCallback.isSome = true))
  | .call _ | .update | .recvStatus _ | .status _ | .recvFeedback _ | .feedback =>
      inferInstanceAs (Decidable True)

theorem PathStep.covered {alive : SessionId → Bool} {r : PathRequest G W} {m m' : Mem G W}
    {e' : Exec G W} (h : PathStep alive r m m' e') (hm : m.Covered) : m'.Covered := fun i => by
  rw [h.sessions]
  exact hm i

theorem ExecStep.covered {alive : SessionId → Bool} {e e' : Exec G W} {m m' : Mem G W}
    (h : ExecStep alive e m m' e')
    (hheard : ∀ x ∈ e.installing?,
      x.1.request.callback.isSome = true ∧ (m.sessions x.2).failureCallback.isSome = true)
    (hm : m.Covered) : m'.Covered := by
  cases h with
  | invalidateOld | stopInvalidate => exact (Tame.invalidate _ _).covered hm
  | armSession =>
      refine Mem.Covered.modify (m := (m.setPendingFailure false).record .unflagged) hm fun hg => ?_
      exact ⟨(hm _ hg).1, Option.some_ne_none _⟩
  | executePath h => exact h.covered hm
  | @install j i m =>
      obtain ⟨hcb, hfail⟩ := hheard (j, i) rfl
      refine hm.modify fun _ => ⟨?_, Option.isSome_iff_ne_none.mp hfail⟩
      simpa [NavigationSession.install, PathJob.completion] using Option.isSome_iff_ne_none.mp hcb
  | accepted => exact hm.returnFrom _
  | @notAccepted j i k m hk => exact hm.modify (hm i)
  | @notAcceptedSilent j i m hk => exact (hm.modify (f := .markDone) (hm i)).returnFrom _
  | fire h => exact h.tame.covered hm
  | fired h => exact (h.tame.covered hm).returnFrom _
  | stopCancel | cancel =>
      split
      · exact (Tame.invalidate _ _).covered hm
      · exact hm
  | _ => exact hm

theorem CallStep.covered {alive : SessionId → Bool} {c : Call G W} {e' : Exec G W} {m m' : Mem G W}
    (h : CallStep alive c m m' e') (hm : m.Covered) : m'.Covered := by
  cases h with
  | followEmpty => split <;> exact hm.newSession _
  | follow | followOver => exact hm.newSession _
  | noDock => split <;> exact hm
  | @dock ws fin net m m' e' h => exact h.covered (m := m.record (.dockPlanned m.nextCall ws)) hm
  | @undock a env ws net m m' e' _ _ _ _ h =>
      exact h.covered (m := m.record (.undockPlanned a m.nextCall ws)) hm
  | _ => exact hm

theorem Moves.covered [DecidableEq G] {s s' : State G W} {a : Action G W} (h : Moves s a s')
    (hP : Heard s a) (hs : NavInv s) (hm : s.mem.Covered) : s'.mem.Covered := by
  cases h with
  | call c idle fresh => exact (callStep s.alive c s.mem).covered hm
  | exec busy => exact (execStep s.alive busy s.mem).covered hP hm
  | update => exact (updateStep s.update s.mem).zenohStep.toTame.covered hm
  | recvStatus | recvFeedback => exact hm
  | status k t at_k =>
      have ht := hs.status t (List.mem_of_getElem? at_k)
      exact ((statusStep s.alive t s.mem).zenohStep ht).toTame.covered hm
  | feedback => exact (FeedbackThread.zenohStep s.alive s.feedback s.mem).toTame.covered hm

/-! ### Every run -/

/-- The callback owed for what `status_callback` found: the one given to the `execute_path` call
that drew the goal, or the session's own failure callback. -/
inductive Owed (h : List (Event G W)) (x : Found G) : Closure → Prop where
  | completion {k : Completion} (status : x.status = .succeeded)
      (goal : .goal k.call x.goal (some k) ∈ h) : Owed h x (.completion k)
  | failure (status : x.status.failed = true) : Owed h x (.failure x.session)

/-- What a covered session holds for a terminal entry is the callback owed. -/
theorem Mem.Covered.owed [DecidableEq G] {s : State G W} (hs : NavInv s) (hm : s.mem.Covered)
    {k : Nat} {x : Found G} (hx : s.finds k = some x) (ht : x.status.terminal = true) :
    ∃ c, s.taken x = some c ∧ Owed s.mem.log x c := by
  obtain ⟨-, -, hg, -⟩ := State.finds_eq_some.mp hx
  obtain ⟨hcompletion, hfailure⟩ := hm x.session (by rw [hg]; exact Option.some_ne_none _)
  obtain ⟨κ, hκ⟩ := Option.ne_none_iff_exists'.mp hcompletion
  obtain ⟨p, hp⟩ := Option.ne_none_iff_exists'.mp hfailure
  obtain rfl := (hs.nav.mem.sessions x.session).failure p hp
  have failed (hst : x.status.failed = true) :
      ∃ c, s.taken x = some c ∧ Owed s.mem.log x c :=
    ⟨_, closureFor_of_failed hst hp, .failure hst⟩
  cases hst : x.status with
  | succeeded =>
      refine ⟨_, ?_, .completion hst (hs.nav.mem.goal_of_completion hg hκ)⟩
      simp [State.taken, hst, NavigationSession.closureFor, hκ]
  | canceled | aborted => exact failed (by rw [hst]; rfl)
  | accepted | executing | other _ => rw [hst] at ht; cases ht

/-- In runs whose goals are installed covered, they are so in every state. -/
theorem covered_of_reach [DecidableEq G] {P : State G W → Action G W → Prop}
    (hP : ∀ s a, P s a → Heard s a) {s : State G W} (h : (navigation G W).Reach P s) :
    s.mem.Covered :=
  h.invariant_of (I := fun s => s.mem.Covered) (fun _ hs => NavInv.reach hs)
    (fun _ => NavigationSession.covered_of_goalId rfl)
    fun _ _ _ hPs hstep hs hm => (navStep_moves hstep).covered (hP _ _ hPs) hs hm

/-! ### A goal that ends is told of -/

/-- The callback that was given with goal `g` has been called. -/
def CalledBack [DecidableEq G] (h : List (Event G W)) (g : G) : Prop :=
  ∃ e ∈ h, ∃ k ∈ e.requester? g, .invoked (.completion k) ∈ h

instance [DecidableEq G] [DecidableEq W] (h : List (Event G W)) (g : G) :
    Decidable (CalledBack h g) :=
  inferInstanceAs (Decidable (∃ e ∈ h, ∃ k ∈ e.requester? g, .invoked (.completion k) ∈ h))

/-- The end of goal `g` is known: its terminal status, or its own callback. -/
def Resolved [DecidableEq G] (h : List (Event G W)) (g : G) : Prop :=
  FoundWith GoalStatus.terminal h g ∨ CalledBack h g

instance [DecidableEq G] [DecidableEq W] (h : List (Event G W)) (g : G) :
    Decidable (Resolved h g) :=
  inferInstanceAs (Decidable (_ ∨ _))

/-- The end of a goal is reported while the goal stands, or when its end is known already. -/
def EndsStanding [DecidableEq G] (s : State G W) : Action G W → Prop
  | .status k => ∀ e ∈ s.entries k, ∀ st ∈ (s.entries k).find e.1, st.terminal = true →
      Handed s.mem.log e.1 → standingGoal s.mem.log = some e.1 ∨ Resolved s.mem.log e.1
  | _ => True

instance [DecidableEq G] [DecidableEq W] (s : State G W) : ∀ a, Decidable (EndsStanding s a)
  | .status k => inferInstanceAs (Decidable (∀ e ∈ s.entries k, ∀ st ∈ (s.entries k).find e.1,
      st.terminal = true → Handed s.mem.log e.1 →
        standingGoal s.mem.log = some e.1 ∨ Resolved s.mem.log e.1))
  | .call _ | .exec | .update | .recvStatus _ | .recvFeedback _ | .feedback =>
      inferInstanceAs (Decidable True)

/-- Goals are installed covered, their sessions kept, and their ends reported in time. -/
def Listening [DecidableEq G] (s : State G W) (a : Action G W) : Prop :=
  Heard s a ∧ Orderly s a ∧ EndsStanding s a

instance [DecidableEq G] [DecidableEq W] (s : State G W) (a : Action G W) :
    Decidable (Listening s a) :=
  inferInstanceAs (Decidable (_ ∧ _ ∧ _))

theorem CalledBack.mono [DecidableEq G] {h h' : List (Event G W)} (hs : h <:+ h') {g : G}
    (hg : CalledBack h g) : CalledBack h' g :=
  let ⟨e, he, k, hk, hi⟩ := hg
  ⟨e, hs.subset he, k, hk, hs.subset hi⟩

theorem calledBack_of [DecidableEq G] {h : List (Event G W)} {c : CallId} {g : G} {k : Completion}
    (hc : .goal c g (some k) ∈ h) (hi : .invoked (.completion k) ∈ h) : CalledBack h g :=
  let ⟨e, he, hk⟩ := requester?_iff.mpr ⟨c, hc⟩
  ⟨e, he, k, hk, hi⟩

theorem Resolved.mono [DecidableEq G] {g : G} {h h' : List (Event G W)} (hs : h <:+ h') :
    Resolved h g → Resolved h' g :=
  Or.imp (.mono hs) (.mono hs)

theorem ClosureStep.invoked {alive : SessionId → Bool} {c : Closure} {f' : Option Firing}
    {m m' : Mem G W} (h : ClosureStep alive (.enter c) m m' f') : .invoked c ∈ m'.log := by
  cases h with
  | enterPath | enterFailure => split <;> exact List.mem_cons_self
  | enterDock => exact List.mem_cons_of_mem _ List.mem_cons_self
  | enterUndock => exact List.mem_cons_self

/-- A goal leaves its session with a terminal status, or with its own callback. -/
theorem tracked_covered [DecidableEq G] (g : G) :
    Tracked (W := W) Listening g fun h => Resolved h g where
  orderly := fun hP => hP.2.1
  mono := Resolved.mono
  ended := fun hst ht => .inl (foundWith_iff.mpr ⟨_, _, hst, ht⟩)
  armed := fun {s i} hs hg hu => by
    have hc := covered_of_reach (fun _ _ hP => hP.1) hs i (by rw [hg]; exact Option.some_ne_none g)
    exact absurd hu.failure hc.2
  fired := fun {s s' j i c} hs he hg hm => by
    have hnav := NavInv.reach hs
    have hexec := hnav.nav.exec
    rw [he] at hexec
    obtain ⟨hj, k, hk, hof⟩ := hexec
    cases hof
    have hgoal := hj.goal
    rw [hk, hg] at hgoal
    refine .inr (calledBack_of ((hm.suffix hnav).subset hgoal) ?_)
    cases hm with
    | exec busy =>
        have hc := execStep s.alive busy s.mem
        dsimp only
        generalize (s.exec.step s.alive s.mem).1 = m', (s.exec.step s.alive s.mem).2 = e' at hc ⊢
        rw [he] at hc
        cases hc with
        | fire h => exact h.invoked
        | fired h => exact (suffix_returnFrom _ _).subset h.invoked

/-- The callback owed for every terminal entry in the log has been called, or is about to be. -/
def State.Spoken (s : State G W) : Prop :=
  ∀ i g st, .status i g st ∈ s.mem.log → st.terminal = true →
    ∃ c, Owed s.mem.log ⟨i, g, st⟩ c ∧
      (.invoked c ∈ s.mem.log ∨
        ∃ (k : Nat) (j : SessionId), s.status[k]? = some (.fire j (.enter c)))

theorem Owed.mono {h h' : List (Event G W)} (hs : h <:+ h') {x : Found G} {c : Closure}
    (hc : Owed h x c) : Owed h' x c := by
  cases hc with
  | completion status goal => exact .completion status (hs.subset goal)
  | failure status => exact .failure status

theorem State.Spoken.step [DecidableEq G] {s s' : State G W} {a : Action G W} (h : Moves s a s')
    (hs : NavInv s) (hm : s.mem.Covered) (ho : s.Spoken) : s'.Spoken := by
  intro i g st hst ht
  have hlog := h.suffix hs
  rcases h.found hs hst with hst | ⟨k, rfl, hx⟩
  · obtain ⟨c, hc, hi | ⟨k, j, hk⟩⟩ := ho i g st hst ht
    · exact ⟨c, hc.mono hlog, .inl (hlog.subset hi)⟩
    · rcases h.running hk with hk | ⟨f', hstep, -⟩
      · exact ⟨c, hc.mono hlog, .inr ⟨k, j, hk⟩⟩
      · exact ⟨c, hc.mono hlog, .inl hstep.invoked⟩
  · obtain ⟨c, htaken, howed⟩ := hm.owed hs hx ht
    exact ⟨c, howed.mono hlog, .inr ⟨k, i, (h.finds hx).2.2 c htaken⟩⟩

/-- The closures that tell how goal `g` ended: the callback given with it, and the failure callback
of the session it failed in. -/
inductive Announces (h : List (Event G W)) (g : G) : Closure → Prop where
  | requester {c : CallId} {k : Completion} (goal : .goal c g (some k) ∈ h) :
      Announces h g (.completion k)
  | replan {i : SessionId} {st : GoalStatus} (status : .status i g st ∈ h)
      (failed : st.failed = true) : Announces h g (.failure i)

/-- The requester of goal `g` or the replan path has been told of its end, or is about to be. -/
def State.Tells (s : State G W) (g : G) : Prop :=
  ∃ c, Announces s.mem.log g c ∧ (.invoked c ∈ s.mem.log ∨ .enter c ∈ s.firings)

theorem State.Spoken.tells [DecidableEq G] {s : State G W} (ho : s.Spoken) {g : G}
    (hg : Resolved s.mem.log g) : s.Tells g := by
  rcases hg with hf | ⟨e, he, k, hk, hi⟩
  · obtain ⟨i, st, hst, ht⟩ := foundWith_iff.mp hf
    obtain ⟨c, howed, hc⟩ := ho i g st hst ht
    refine ⟨c, ?_, hc.imp_right fun ⟨k, j, hk⟩ => mem_firings (List.mem_of_getElem? hk)⟩
    cases howed with
    | completion _ goal => exact .requester goal
    | failure failed => exact .replan hst failed
  · obtain ⟨c, hc⟩ := requester?_iff.mp ⟨e, he, hk⟩
    exact ⟨_, .requester hc, .inl hi⟩

/-- A status message that ends a goal handed over has told somebody when its callback is done. -/
theorem ending_told [DecidableEq G] {s t : State G W} {as : List (Action G W)}
    (hs : (navigation G W).Reach Listening s) (hr : (navigation G W).Run Listening s as t)
    {k : Nat} {entries : StatusList G} {g : G} {st : GoalStatus}
    (hk : s.status[k]? = some (.lock entries)) (hst : entries.find g = some st)
    (ht : st.terminal = true) (hh : Handed s.mem.log g) (hdone : t.status[k]? = some .done) :
    t.Tells g := by
  have hreach : (navigation G W).Reach Listening t :=
    hr.preserves (fun _ _ _ hP hstep hs => hs.step hP hstep) hs
  have hspoken : t.Spoken :=
    hreach.invariant_of (J := fun s => NavInv s ∧ s.mem.Covered)
      (fun _ hs => ⟨NavInv.reach hs, covered_of_reach (fun _ _ hP => hP.1) hs⟩)
      (fun _ _ _ h => by cases h) fun _ _ _ _ hstep hJ ho => ho.step (navStep_moves hstep) hJ.1 hJ.2
  refine hspoken.tells ((tracked_covered g).resolved (E := fun h => Resolved h g) Resolved.mono hs
    hr hk hst ?_ hh ?_ hdone)
  · exact fun h i hm => .inl (foundWith_iff.mpr ⟨i, st, hm, ht⟩)
  · intro u _ hP he hh
    obtain ⟨e, hfind, hval⟩ := Option.map_eq_some_iff.mp hst
    obtain rfl : e.1 = g := by simpa using List.find?_some hfind
    have hmem : e ∈ u.entries k := he ▸ List.mem_of_find?_eq_some hfind
    rcases hP.2.2 e hmem st (he ▸ hst) ht hh with hstands | hD
    · exact .inr ⟨hstands, id⟩
    · exact .inl hD

/-- **No terminal event is lost.**  In runs whose goals are installed covered, no session is lost
and every end is reported while its goal stands: a status callback that finds a terminal entry fires
exactly one callback, the one owed, and, left to itself, runs it to its end; and every message that
ends a goal handed over has told the goal's requester or the replan path, or is about to, when its
callback is done. -/
theorem terminal_is_told [DecidableEq G] {s : State G W}
    (h : (navigation G W).Reach Listening s) :
    (∀ (k : Nat) (x : Found G), s.finds k = some x → x.status.terminal = true →
      ∃ c, Owed s.mem.log x c ∧
        ∃ n t, (navigation G W).Run (fun _ _ => True) s (List.replicate n (.status k)) t ∧
          t.status[k]? = some .done ∧
          t.mem.log = c.tells ++ .invoked c :: .status x.session x.goal x.status :: s.mem.log ∧
          ∀ n a, c = .completion ⟨n, .undock a⟩ → (t.mem.undock a).navCompleted = true) ∧
      ∀ (k : Nat) (entries : StatusList G) (g : G) (st : GoalStatus) (as : List (Action G W))
        (t : State G W), s.status[k]? = some (.lock entries) → entries.find g = some st →
          st.terminal = true → Handed s.mem.log g → (navigation G W).Run Listening s as t →
            t.status[k]? = some .done → t.Tells g := by
  refine ⟨fun k x hx ht => ?_, fun k entries g st as t hk hst ht hh hr hdone =>
    ending_told h hr hk hst ht hh hdone⟩
  obtain ⟨c, htaken, howed⟩ := (covered_of_reach (fun _ _ hP => hP.1) h).owed (NavInv.reach h) hx ht
  obtain ⟨s', hstep, hfire, hlog⟩ := exists_found hx
  rw [htaken] at hfire
  obtain ⟨n, t, hrun, hdone, htells, hcompletes⟩ := exists_fired hfire
  refine ⟨c, howed, n + 1, t, .cons trivial hstep hrun, hdone, ?_, ?_⟩
  · rw [htells, hlog]
    simp [Firing.tells]
  · rintro n a rfl
    exact hcompletes a rfl

theorem terminal_is_told_abortion :
    ∃ s u, (navigation ℕ ℕ).Run Listening navStart (following ++ [.recvStatus [(7, .aborted)]]) s ∧
      (∃ t, (navigation ℕ ℕ).Run Listening s (List.replicate 5 (.status 0)) t ∧ t.Tells 7) ∧
      (navigation ℕ ℕ).step s (.status 0) = some u ∧ u.finds 0 = some ⟨0, 7, .aborted⟩ ∧
      ∃ c, Owed u.mem.log ⟨0, 7, .aborted⟩ c ∧
        ∃ n t, (navigation ℕ ℕ).Run (fun _ _ => True) u (List.replicate n (.status 0)) t ∧
          t.mem.log = c.tells ++ .invoked c :: .status 0 7 .aborted :: u.mem.log := by
  have hrun := Lts.exists_run (navigation ℕ ℕ) Listening navStart
    (following ++ [.recvStatus [(7, .aborted)]])
    (fun s => decide (s.status[0]? = some (.lock [(7, .aborted)])) && decide (Handed s.mem.log 7) &&
      ((navigation ℕ ℕ).runs Listening s (List.replicate 5 (.status 0))).any
        (fun t => decide (t.status[0]? = some .done)) &&
      decide (Listening s (.status 0)) && ((navigation ℕ ℕ).step s (.status 0)).any
        fun u => u.finds 0 == some ⟨0, 7, .aborted⟩) (by decide)
  obtain ⟨s, hs, hq⟩ := hrun
  simp only [Bool.and_eq_true, decide_eq_true_eq, Option.any_eq_true, beq_iff_eq] at hq
  obtain ⟨⟨⟨⟨hk, hh⟩, t, ht, hdone⟩, hP⟩, u, hu, hx⟩ := hq
  have hr := Lts.run_of_runs ht
  have hreach : (navigation ℕ ℕ).Reach Listening u := Lts.Reach.step ⟨_, hs⟩ hP hu
  obtain ⟨c, howed, n, t', hrun, -, hlog, -⟩ := (terminal_is_told hreach).1 0 _ hx rfl
  exact ⟨s, u, hs, ⟨t, hr, (terminal_is_told ⟨_, hs⟩).2 0 _ 7 _ _ t hk rfl rfl hh hr hdone⟩, hu, hx,
    c, howed, n, t', hrun, hlog⟩

/-- A status callback that is done takes no step. -/
theorem eq_of_run_done [DecidableEq G] {P : State G W → Action G W → Prop} {s t : State G W}
    {k n : Nat} (hk : s.status[k]? = some .done)
    (h : (navigation G W).Run P s (List.replicate n (.status k)) t) : t = s := by
  cases n with
  | zero => cases h; rfl
  | succ n =>
      cases h with
      | cons _ hstep _ => simp [navigation, navStep, hk, StatusThread.isDone] at hstep

/-- Navigation is cancelled, the robot is asked to undock in the invalidated session, and its goal
is aborted: no callback is fired. -/
theorem terminal_untold :
    ¬ ∀ (s : State ℕ ℕ) (k : Nat) (x : Found ℕ),
      (navigation ℕ ℕ).Reach (fun _ _ => True) s → s.finds k = some x → x.status.terminal = true →
        ∃ c, Owed s.mem.log x c ∧
          ∃ n t, (navigation ℕ ℕ).Run (fun _ _ => True) s (List.replicate n (.status k)) t ∧
            t.status[k]? = some .done ∧
            t.mem.log =
              c.tells ++ .invoked c :: .status x.session x.goal x.status :: s.mem.log := by
  intro h
  obtain ⟨s, hs, hq⟩ := Lts.exists_run (navigation ℕ ℕ) (fun _ _ => True) navStart
    (following ++ [.call .cancelNavigation, .exec,
      .call (.dock (some [4, 5]) true ⟨9, true, some true⟩), .exec, .exec, .exec,
      .recvStatus [(9, .aborted)], .status 0])
    (fun s => s.finds 0 == some ⟨0, 9, .aborted⟩ && (s.taken ⟨0, 9, .aborted⟩).isNone) (by decide)
  simp only [Bool.and_eq_true, beq_iff_eq, Option.isNone_iff_eq_none] at hq
  obtain ⟨hx, hnone⟩ := hq
  obtain ⟨c, -, n, t, hrun, hdone, hlog⟩ := h s 0 _ ⟨_, hs⟩ hx rfl
  -- the callback's only step takes no closure
  obtain ⟨s', hstep, hdone', hlog'⟩ := exists_found hx
  rw [hnone] at hdone'
  cases n with
  | zero =>
      cases hrun
      obtain ⟨_, hk, -⟩ := State.finds_eq_some.mp hx
      cases hk.symm.trans hdone
  | succ n =>
      cases hrun with
      | cons _ hstep' hrun =>
          cases hstep.symm.trans hstep'
          obtain rfl := eq_of_run_done hdone' hrun
          have hlen := congrArg List.length (hlog.symm.trans hlog')
          simp at hlen
          omega

end EgbFleet
