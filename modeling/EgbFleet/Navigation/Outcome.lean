import EgbFleet.Navigation.Recorded

/-!
# Navigation — how a goal ends

A goal id is drawn by one `execute_path` call and held by one session at a time, and it is over
with the first terminal entry `status_callback` finds for it (`EndsOk`).

A failure of a path's own goal is not lost (`failure_surfaces`): the path's failure closure is on
its way until it has set `pending_failure_`, and the flag stays set until an update takes it, which
then requests a replan, or a new path or a `stop` clears it.
-/

namespace EgbFleet

variable {G W : Type}

/-! ### What a step does to goals -/

theorem Tame.goalId {m m' : Mem G W} (h : Tame m m') {i : SessionId} {g : G}
    (hg : (m'.sessions i).goalId = some g) : (m.sessions i).goalId = some g := by
  rcases h.sessions i with e | e
  · exact e.goalId ▸ hg
  · rw [e.goalId] at hg; cases hg

theorem goalId_modify {m : Mem G W} {i j : SessionId}
    {f : NavigationSession G → NavigationSession G}
    (hf : (f (m.sessions i)).goalId = (m.sessions i).goalId) :
    ((m.modify i f).sessions j).goalId = (m.sessions j).goalId :=
  Mem.sessions_modify_rec i f m j hf fun _ => rfl

theorem ExecStep.goalId {alive : SessionId → Bool} {e e' : Exec G W} {m m' : Mem G W}
    (h : ExecStep alive e m m' e') {i : SessionId} {g : G}
    (hg : (m'.sessions i).goalId = some g) :
    (m.sessions i).goalId = some g ∨
      ∃ j, e = .install j i ∧ e' = .sendGoal j i ∧ j.request.net.goalId = g := by
  have tame {m' : Mem G W} (ht : Tame m m') (hg : (m'.sessions i).goalId = some g) :=
    ht.goalId hg
  cases h with
  | invalidateOld | stopInvalidate => exact .inl (tame (.invalidate _ _) hg)
  | armSession => rw [goalId_modify rfl] at hg; exact .inl hg
  | executePath h => rw [h.sessions] at hg; exact .inl hg
  | @install j i' m =>
      by_cases e : i = i'
      · subst e
        rw [Mem.sessions_modify_self] at hg
        exact .inr ⟨j, rfl, rfl, Option.some.inj hg⟩
      · rw [Mem.sessions_modify_of_ne _ _ _ e] at hg
        exact .inl hg
  | accepted => rw [Mem.sessions_returnFrom] at hg; exact .inl hg
  | notAccepted => rw [goalId_modify rfl] at hg; exact .inl hg
  | notAcceptedSilent => rw [Mem.sessions_returnFrom, goalId_modify rfl] at hg; exact .inl hg
  | fire h => exact .inl (tame h.tame hg)
  | fired h => rw [Mem.sessions_returnFrom] at hg; exact .inl (tame h.tame hg)
  | stopCancel | cancel =>
      split at hg
      · exact .inl (tame (.invalidate _ _) hg)
      · exact .inl hg
  | _ => exact .inl hg

theorem CallStep.goalId {alive : SessionId → Bool} {c : Call G W} {e' : Exec G W} {m m' : Mem G W}
    (h : CallStep alive c m m' e') {i : SessionId} {g : G}
    (hg : (m'.sessions i).goalId = some g) : (m.sessions i).goalId = some g := by
  have new {limits : List ℚ} :
      ((m.newSession limits).sessions i).goalId = some g → (m.sessions i).goalId = some g :=
    Mem.sessions_newSession_rec m limits i nofun fun _ => id
  cases h with
  | followEmpty =>
      rw [Mem.record_sessions] at hg
      split at hg <;> exact new hg
  | follow | followOver => exact new hg
  | noDock => split at hg <;> exact hg
  | dock h | undock _ _ _ _ h => rw [h.sessions] at hg; exact hg
  | _ => exact hg

/-- A goal is installed by the executor only. -/
theorem Moves.goalId [DecidableEq G] {s s' : State G W} {a : Action G W} (h : Moves s a s')
    (hs : NavInv s) {i : SessionId} {g : G} (hg : (s'.mem.sessions i).goalId = some g) :
    (s.mem.sessions i).goalId = some g ∨
      a = .exec ∧ ∃ j, s.exec = .install j i ∧ s'.exec = .sendGoal j i ∧
        j.request.net.goalId = g := by
  cases h with
  | call c idle fresh => exact .inl ((callStep s.alive c s.mem).goalId hg)
  | exec busy => exact ((execStep s.alive busy s.mem).goalId hg).imp_right fun h => ⟨rfl, h⟩
  | update => exact .inl ((updateStep s.update s.mem).zenohStep.toTame.goalId hg)
  | recvStatus | recvFeedback => exact .inl hg
  | status k t at_k =>
      have ht := hs.status t (List.mem_of_getElem? at_k)
      exact .inl (((statusStep s.alive t s.mem).zenohStep ht).toTame.goalId hg)
  | feedback =>
      exact .inl ((FeedbackThread.zenohStep s.alive s.feedback s.mem).toTame.goalId hg)

theorem PathStep.fresh {alive : SessionId → Bool} {r : PathRequest G W} {m m' : Mem G W}
    {e' : Exec G W} (h : PathStep alive r m m' e') (hr : m.Fresh r.net.goalId) {j : PathJob G W}
    {i : SessionId} (he : e' = .install j i) : m.Fresh j.request.net.goalId := by
  cases h with
  | locked => cases he; exact hr
  | lost | lostSilent => cases he

/-- A goal about to be installed has been so before the step, or is drawn in it. -/
theorem Moves.installs [DecidableEq G] {s s' : State G W} {a : Action G W} (h : Moves s a s')
    (hs : NavInv s) {j : PathJob G W} {i : SessionId} (he : s'.exec = .install j i) :
    s.exec = .install j i ∨ s.mem.Fresh j.request.net.goalId := by
  cases h with
  | call c idle fresh =>
      dsimp only at he
      have hc := callStep s.alive c s.mem
      generalize (c.start s.alive s.mem).1 = m', (c.start s.alive s.mem).2 = e' at hc he
      have drawn {e : Event G W} {g : G} (hd : e.draws? = none) (hg : s.mem.Fresh g) :
          (s.mem.record e).Fresh g :=
        (SameGoals.record s.mem hd).fresh hg
      have back {e : Event G W} {g : G} (hg : (s.mem.record e).Fresh g) : s.mem.Fresh g :=
        fun e' he' => hg e' (List.mem_cons_of_mem _ he')
      cases hc with
      | dock h | undock _ _ _ _ h => exact .inr (back (h.fresh (drawn rfl (fresh _ rfl)) he))
      | _ => cases he
  | exec busy =>
      have hnav := hs.nav.exec
      have hc := execStep s.alive busy s.mem
      dsimp only at he
      generalize (s.exec.step s.alive s.mem).1 = m', (s.exec.step s.alive s.mem).2 = e' at hc he
      generalize s.exec = e, s.mem = m at hc hnav
      cases hc with
      | executePath h => exact .inr (h.fresh hnav.1.fresh he)
      | _ => cases he
  | update | recvStatus | status | recvFeedback | feedback => exact .inl he

/-- A status entry in the log is old, or a status callback has just found it. -/
theorem Moves.found [DecidableEq G] {s s' : State G W} {a : Action G W} (h : Moves s a s')
    (hs : NavInv s) {i : SessionId} {g : G} {st : GoalStatus}
    (hst : .status i g st ∈ s'.mem.log) :
    .status i g st ∈ s.mem.log ∨ ∃ k, a = .status k ∧ s.finds k = some ⟨i, g, st⟩ := by
  have hadds := h.adds hs
  generalize s'.mem.log = l at hadds hst
  cases hadds with
  | bland grows => exact .inl (grows.back rfl hst)
  | followed _ grows | refused _ grows =>
      exact .inl ((List.mem_cons.mp (grows.back rfl hst)).resolve_left fun h => by cases h)
  | followedEmpty _ grows => simpa using grows.back rfl hst
  | @status k x hx =>
      rcases List.mem_cons.mp hst with e | hst
      · cases e; exact .inr ⟨k, rfl, hx⟩
      · exact .inl hst
  | arrival | consumed | replan | finished | flagged | feedback =>
      exact .inl ((List.mem_cons.mp hst).resolve_left fun h => by cases h)

/-- The entry found ends the goal if it is terminal; a closure taken for it is run next. -/
theorem Moves.finds [DecidableEq G] {s s' : State G W} {k : Nat} (h : Moves s (.status k) s')
    {x : Found G} (hx : s.finds k = some x) :
    .status x.session x.goal x.status ∈ s'.mem.log ∧
      (x.status.terminal = true → (s'.mem.sessions x.session).goalId = none) ∧
      ∀ c, s.taken x = some c → s'.status[k]? = some (.fire x.session (.enter c)) := by
  obtain ⟨entries, hk, hg, hst⟩ := State.finds_eq_some.mp hx
  cases h with
  | status _ t at_k =>
      cases hk.symm.trans at_k
      have hlt : k < s.status.length := (List.getElem?_eq_some_iff.mp hk).1
      refine ⟨?_, fun ht => ?_, fun c hc => ?_⟩
      · simp only [StatusThread.step, hg, hst]
        split <;> exact List.mem_cons_self
      · simp [StatusThread.step, hg, hst, ht, NavigationSession.invalidate]
      · have hc : (s.mem.sessions x.session).closureFor x.status = some c := hc
        simp [StatusThread.step, hg, hst, hc, hlt]

/-- A closure in flight stays where it is, or takes its own next step. -/
theorem Moves.running [DecidableEq G] {s s' : State G W} {a : Action G W} (h : Moves s a s')
    {k : Nat} {i : SessionId} {f : Firing} (hk : s.status[k]? = some (.fire i f)) :
    s'.status[k]? = some (.fire i f) ∨
      ∃ f', ClosureStep s.alive f s.mem s'.mem f' ∧
        ∀ f₁, f' = some f₁ → s'.status[k]? = some (.fire i f₁) := by
  cases h with
  | call | exec | update | recvFeedback | feedback => exact .inl hk
  | recvStatus entries =>
      refine .inl ?_
      rw [List.getElem?_append_left (List.getElem?_eq_some_iff.mp hk).1, hk]
  | status k' t at_k =>
      by_cases e : k' = k
      · subst e
        cases hk.symm.trans at_k
        have hlt : k' < s.status.length := (List.getElem?_eq_some_iff.mp hk).1
        have ht := statusStep s.alive (.fire i f) s.mem
        dsimp only
        generalize (StatusThread.step s.alive (.fire i f) s.mem).1 = m',
          (StatusThread.step s.alive (.fire i f) s.mem).2 = t' at ht ⊢
        cases ht with
        | quiet hq => exact absurd rfl (hq i f)
        | fire h =>
            refine .inr ⟨_, h, ?_⟩
            rintro _ ⟨⟩
            rw [List.getElem?_set_self hlt]
        | fired h => exact .inr ⟨_, h, nofun⟩
      · exact .inl (by rw [List.getElem?_set_ne e, hk])

/-! ### A goal ends once -/

/-- A session's goal, and what has been found for it. -/
structure EndsOk (s : State G W) : Prop where
  drawn : ∀ {i g st}, .status i g st ∈ s.mem.log → ∃ c k, .goal c g k ∈ s.mem.log
  unique : ∀ {i i' g}, (s.mem.sessions i).goalId = some g → (s.mem.sessions i').goalId = some g →
    i = i'
  ended : ∀ {i g st}, .status i g st ∈ s.mem.log → st.terminal = true →
    ∀ i', (s.mem.sessions i').goalId ≠ some g
  sole : ∀ {i i' g st st'}, .status i g st ∈ s.mem.log → .status i' g st' ∈ s.mem.log →
    st.terminal = true → st'.terminal = true → i = i' ∧ st = st'
  ready : ∀ j i, s.exec = .install j i →
    (∀ i', (s.mem.sessions i').goalId ≠ some j.request.net.goalId) ∧
      ∀ i' st, .status i' j.request.net.goalId st ∉ s.mem.log

theorem NavInv.drawn {s : State G W} (hs : NavInv s) {i : SessionId} {g : G}
    (hg : (s.mem.sessions i).goalId = some g) : ∃ c k, .goal c g k ∈ s.mem.log :=
  let ⟨⟨c, hc⟩, _⟩ := (hs.nav.mem.sessions i).goal g hg
  ⟨c, _, hc⟩

theorem EndsOk.step [DecidableEq G] {s s' : State G W} {a : Action G W}
    (h : navStep s a = some s') (hs : NavInv s) (he : EndsOk s) : EndsOk s' := by
  have hm := navStep_moves h
  have hlog := hm.suffix hs
  have held {k i g st} (hx : s.finds k = some ⟨i, g, st⟩) :
      (s.mem.sessions i).goalId = some g :=
    let ⟨_, _, hg, _⟩ := State.finds_eq_some.mp hx
    hg
  constructor
  case drawn =>
    intro i g st hst
    rcases hm.found hs hst with hst | ⟨k, -, hx⟩
    · obtain ⟨c, k, hc⟩ := he.drawn hst
      exact ⟨c, k, hlog.subset hc⟩
    · obtain ⟨c, k, hc⟩ := hs.drawn (held hx)
      exact ⟨c, k, hlog.subset hc⟩
  case unique =>
    intro i i' g hg hg'
    rcases hm.goalId hs hg with hg | ⟨-, j, hj, -, rfl⟩ <;>
      rcases hm.goalId hs hg' with hg' | ⟨-, j', hj', -, e⟩
    · exact he.unique hg hg'
    · exact absurd (e ▸ hg) ((he.ready j' i' hj').1 i)
    · exact absurd hg' ((he.ready j i hj).1 i')
    · cases hj.symm.trans hj'; rfl
  case ended =>
    intro i g st hst ht i' hg'
    rcases hm.found hs hst with hst | ⟨k, rfl, hx⟩ <;>
      rcases hm.goalId hs hg' with hg | ⟨ha', j, hj, -, rfl⟩
    · exact he.ended hst ht i' hg
    · exact (he.ready j i' hj).2 _ _ hst
    · obtain rfl := he.unique (held hx) hg
      rw [(hm.finds hx).2.1 ht] at hg'
      cases hg'
    · cases ha'
  case sole =>
    intro i i' g st st' hst hst' ht ht'
    rcases hm.found hs hst with hst | ⟨k, ha, hx⟩ <;>
      rcases hm.found hs hst' with hst' | ⟨k', ha', hx'⟩
    · exact he.sole hst hst' ht ht'
    · exact absurd (held hx') (he.ended hst ht _)
    · exact absurd (held hx) (he.ended hst' ht' _)
    · cases ha.symm.trans ha'
      cases hx.symm.trans hx'
      exact ⟨rfl, rfl⟩
  case ready =>
    intro j i hj
    -- the goal was to be installed before the step, or is fresh
    obtain ⟨hnone, hunseen⟩ : (∀ i', (s.mem.sessions i').goalId ≠ some j.request.net.goalId) ∧
        ∀ i' st, .status i' j.request.net.goalId st ∉ s.mem.log := by
      rcases hm.installs hs hj with hj | hfresh
      · exact he.ready j i hj
      · refine ⟨fun i' hg => ?_, fun i' st hst => ?_⟩
        · obtain ⟨c, k, hc⟩ := hs.drawn hg
          exact Mem.fresh_iff.mp hfresh c k hc
        · obtain ⟨c, k, hc⟩ := he.drawn hst
          exact Mem.fresh_iff.mp hfresh c k hc
    refine ⟨fun i' hg => ?_, fun i' st hst => ?_⟩
    · rcases hm.goalId hs hg with hg | ⟨-, j', -, hj', -⟩
      · exact hnone i' hg
      · cases hj.symm.trans hj'
    · rcases hm.found hs hst with hst | ⟨k, -, hx⟩
      · exact hunseen i' st hst
      · exact hnone i' (held hx)

/-! ### A failure surfaces -/

/-- The path whose failure closure set `pending_failure_`, while it is set. -/
def pendingPath : List (Event G W) → Option SessionId
  | [] => none
  | .flagged p :: _ => some p
  | .unflagged :: _ | .consumed :: _ => none
  | _ :: h => pendingPath h

/-- An update has taken `pending_failure_`, and not yet requested its replan. -/
def owesReplan : List (Event G W) → Bool
  | [] => false
  | .consumed :: _ => true
  | .replan :: _ => false
  | _ :: h => owesReplan h

/-- `pending_failure_`, and who set it. -/
def Mem.flag (m : Mem G W) : Bool × Option SessionId := (m.pendingFailure, pendingPath m.log)

/-- What has become of a failure that was flagged. -/
theorem pendingPath_append (h₁ h₂ : List (Event G W)) (p : SessionId) :
    pendingPath (h₁ ++ .flagged p :: h₂) ≠ none ∨ owesReplan (h₁ ++ .flagged p :: h₂) = true ∨
      .replan ∈ h₁ ∨ .unflagged ∈ h₁ := by
  induction h₁ with
  | nil => exact .inl (Option.some_ne_none p)
  | cons e h₁ ih =>
      cases e with
      | flagged q => exact .inl (Option.some_ne_none q)
      | consumed => exact .inr (.inl rfl)
      | replan => exact .inr (.inr (.inl List.mem_cons_self))
      | unflagged => exact .inr (.inr (.inr List.mem_cons_self))
      | _ =>
          exact ih.imp id (.imp id (.imp (List.mem_cons_of_mem _) (List.mem_cons_of_mem _)))

theorem flag_returnFrom (c : Caller) (m : Mem G W) : (m.returnFrom c).flag = m.flag := by
  cases c <;> rfl

theorem ClosureStep.flag {alive : SessionId → Bool} {f : Firing} {f' : Option Firing}
    {m m' : Mem G W} (h : ClosureStep alive f m m' f') :
    m'.flag = m.flag ∨ ∃ p, f = .report (.failed p) ∧ m'.flag = (true, some p) := by
  cases h with
  | enterPath | enterFailure | reportArrived => split <;> exact .inl rfl
  | enterDock | enterUndock | reset => exact .inl rfl
  | reportFailed => exact .inr ⟨_, rfl, rfl⟩

theorem PathStep.flag {alive : SessionId → Bool} {r : PathRequest G W} {m m' : Mem G W}
    {e' : Exec G W} (h : PathStep alive r m m' e') : m'.flag = m.flag := by
  cases h with
  | locked | lost => rfl
  | lostSilent => exact flag_returnFrom _ _

/-- The executor runs completion callbacks only. -/
theorem ExecOk.flag {alive : SessionId → Bool} {j : PathJob G W} {i : Option SessionId}
    {f : Firing} {f' : Option Firing} {m m' : Mem G W} (he : ExecOk m (.fire j i f))
    (h : ClosureStep alive f m m' f') : m'.flag = m.flag := by
  rcases h.flag with e | ⟨p, rfl, -⟩
  · exact e
  · obtain ⟨-, ⟨_, _ | _ | _⟩, -, hof⟩ := he
    all_goals cases hof with
    | report ht => cases ht

theorem ExecStep.flag {alive : SessionId → Bool} {e e' : Exec G W} {m m' : Mem G W}
    (h : ExecStep alive e m m' e') (he : ExecOk m e) :
    m'.flag = m.flag ∨ m'.flag = (false, none) := by
  cases h with
  | executePath h => exact .inl h.flag
  | accepted | notAcceptedSilent => exact .inl (flag_returnFrom _ _)
  | fire h => exact .inl (he.flag h)
  | fired h => exact .inl ((flag_returnFrom _ _).trans (he.flag h))
  | stopCancel | cancel => split <;> exact .inl rfl
  | armSession | stopClear => exact .inr rfl
  | _ => exact .inl rfl

theorem CallStep.flag {alive : SessionId → Bool} {c : Call G W} {e' : Exec G W} {m m' : Mem G W}
    (h : CallStep alive c m m' e') : m'.flag = m.flag := by
  cases h with
  | followEmpty => split <;> rfl
  | noDock => split <;> rfl
  | dock h | undock _ _ _ _ h => exact h.flag
  | _ => rfl

theorem StatusStep.flag [DecidableEq G] {alive : SessionId → Bool} {t t' : StatusThread G}
    {m m' : Mem G W} (h : StatusStep alive t m m' t') :
    m'.flag = m.flag ∨ ∃ i p, t = .fire i (.report (.failed p)) ∧ m'.flag = (true, some p) := by
  cases h with
  | quiet | take => exact .inl rfl
  | silent => split <;> exact .inl rfl
  | fire h | fired h =>
      rcases h.flag with e | ⟨p, rfl, e⟩
      · exact .inl e
      · exact .inr ⟨_, p, rfl, e⟩

theorem UpdateStep.flag {u u' : UpdateThread} {m m' : Mem G W} (h : UpdateStep u m m' u') :
    m'.flag = m.flag ∨ m'.flag = (false, none) := by
  cases h with
  | read | drainTake | drainForward | replan => exact .inl rfl
  | takeFailure => exact .inr rfl

/-- `pending_failure_` is set by a failure closure, and cleared by the executor or an update. -/
theorem Moves.flag [DecidableEq G] {s s' : State G W} {a : Action G W} (h : Moves s a s')
    (hs : NavInv s) :
    s'.mem.flag = s.mem.flag ∨ s'.mem.flag = (false, none) ∨
      ∃ k i p, a = .status k ∧ s.status[k]? = some (.fire i (.report (.failed p))) ∧
        s'.mem.flag = (true, some p) := by
  cases h with
  | call c idle fresh => exact .inl (callStep s.alive c s.mem).flag
  | exec busy => exact ((execStep s.alive busy s.mem).flag hs.nav.exec).imp_right .inl
  | update => exact (updateStep s.update s.mem).flag.imp_right .inl
  | recvStatus | recvFeedback => exact .inl rfl
  | status k t at_k =>
      rcases (statusStep s.alive t s.mem).flag with e | ⟨i, p, rfl, e⟩
      · exact .inl e
      · exact .inr (.inr ⟨k, i, p, rfl, at_k, e⟩)
  | feedback => cases hf : s.feedback <;> exact .inl rfl

/-- An update that has taken the failure is about to request its replan. -/
theorem Moves.owes [DecidableEq G] {s s' : State G W} {a : Action G W} (h : Moves s a s')
    (hs : NavInv s) (ho : owesReplan s.mem.log = true → s.update = .replan) :
    owesReplan s'.mem.log = true → s'.update = .replan := by
  have same (ha : a ≠ .update) : owesReplan s'.mem.log = owesReplan s.mem.log :=
    (h.grows hs ha).eq fun e h he => by
      cases e with
      | arrival _ _ | consumed | replan => cases he
      | _ => rfl
  cases h with
  | call | exec | recvStatus | status | recvFeedback | feedback => rw [same nofun]; exact ho
  | update =>
      have hu := updateStep s.update s.mem
      dsimp only
      generalize (s.update.step s.mem).1 = m', (s.update.step s.mem).2 = u' at hu ⊢
      generalize s.update = u, s.mem = m at hu ho
      cases hu with
      | read hu => exact fun h => absurd (ho h) hu.2
      | drainTake | drainForward => exact fun h => by cases ho h
      | takeFailure => exact fun _ => rfl
      | replan => exact nofun

/-- A status callback runs path `p`'s failure closure. -/
def State.Failing (s : State G W) (p : SessionId) : Prop :=
  ∃ (k : Nat) (i : SessionId) (f : Firing),
    s.status[k]? = some (.fire i f) ∧ f.tail? = some (.failed p)

/-- Path `p`'s failure closure is on its way, or has set `pending_failure_` after `e`. -/
def State.Flags (s : State G W) (e : Event G W) (p : SessionId) : Prop :=
  s.Failing p ∨ ∃ h₁ h₂, s.mem.log = h₁ ++ .flagged p :: h₂ ∧ e ∈ h₂

/-- Path `p`'s failure closure is on its way, or has set `pending_failure_` after `e`, which is
still set unless an update has taken it and has requested a replan or is about to, or a new path or
a `stop` has cleared it. -/
def State.Surfaces (s : State G W) (e : Event G W) (p : SessionId) : Prop :=
  s.Failing p ∨
    ∃ h₁ h₂, s.mem.log = h₁ ++ .flagged p :: h₂ ∧ e ∈ h₂ ∧
      (s.mem.pendingFailure = true ∨ s.update = .replan ∨ .replan ∈ h₁ ∨ .unflagged ∈ h₁)

theorem ClosureStep.fails {alive : SessionId → Bool} {f : Firing} {m m' : Mem G W}
    (h : ClosureStep alive f m m' none) {p : SessionId} (hf : f.tail? = some (.failed p)) :
    m'.log = .flagged p :: m.log := by
  cases h with
  | @enterDock k _ hk | @enterUndock k _ _ hk =>
      obtain ⟨n, kind⟩ := k
      cases hk
      cases hf
  | reportArrived => cases hf
  | reportFailed => cases hf; rfl

theorem State.Flags.step [DecidableEq G] {s s' : State G W} {a : Action G W} (h : Moves s a s')
    (hs : NavInv s) {e : Event G W} {p : SessionId} (he : e ∈ s.mem.log) (hf : s.Flags e p) :
    s'.Flags e p := by
  rcases hf with ⟨k, i, f, hk, ht⟩ | ⟨h₁, h₂, hlog, he⟩
  · rcases h.running hk with hk | ⟨_ | f', hc, hk⟩
    · exact .inl ⟨k, i, f, hk, ht⟩
    · exact .inr ⟨[], s.mem.log, hc.fails ht, he⟩
    · exact .inl ⟨k, i, f', hk f' rfl, hc.tail?.trans ht⟩
  · obtain ⟨l, hl⟩ := h.suffix hs
    exact .inr ⟨l ++ h₁, h₂, by rw [← hl, hlog, List.append_assoc], he⟩

theorem closureFor_of_failed {σ : NavigationSession G} {st : GoalStatus} {p : SessionId}
    (hst : st.failed = true) (hf : σ.failureCallback = some p) :
    σ.closureFor st = some (.failure p) := by
  cases st with
  | aborted | canceled => exact congrArg (Option.map _) hf
  | accepted | executing | succeeded | other _ => cases hst

/-- The goal of a path is in the path's own session. -/
theorem MemOk.path_of_goal {m : Mem G W} (hm : MemOk m) {i p : SessionId} {g : G}
    (hg : (m.sessions i).goalId = some g) (hp : PathGoal m.log p g) : p = i := by
  obtain ⟨⟨c, hc⟩, -⟩ := (hm.sessions i).goal g hg
  obtain ⟨c', fin, hc'⟩ := hp
  obtain ⟨-, hk⟩ := hm.goals.goal_inj hc hc'
  exact (hm.sessions i).path _ hk p rfl

/-- How goals end, and what becomes of a path's failure. -/
structure EndsInv (s : State G W) : Prop where
  nav : NavInv s
  ends : EndsOk s
  flag : s.mem.pendingFailure = (pendingPath s.mem.log).isSome
  owes : owesReplan s.mem.log = true → s.update = .replan
  flags : ∀ {i p g st}, .status i g st ∈ s.mem.log → PathGoal s.mem.log p g → st.failed = true →
    s.Flags (.status i g st) p

theorem EndsInv.step [DecidableEq G] {s s' : State G W} {a : Action G W}
    (h : navStep s a = some s') (hs : EndsInv s) : EndsInv s' := by
  have hm := navStep_moves h
  have hnav := hs.nav.step h
  have hlog := hm.suffix hs.nav
  -- a goal drawn before the step is a path's goal after it only if it was before
  have back {c g k p} (hc : .goal c g k ∈ s.mem.log) (hp : PathGoal s'.mem.log p g) :
      PathGoal s.mem.log p g := by
    obtain ⟨c', fin, hc'⟩ := hp
    obtain ⟨rfl, rfl⟩ := hnav.nav.mem.goals.goal_inj (hlog.subset hc) hc'
    exact ⟨c, fin, hc⟩
  refine ⟨hnav, hs.ends.step h hs.nav, ?_, hm.owes hs.nav hs.owes,
    fun {i p g st} hst hp hfail => ?_⟩
  · rcases hm.flag hs.nav with e | e | ⟨k, i, p, -, -, e⟩
    · obtain ⟨e₁, e₂⟩ := Prod.mk.inj e
      rw [e₁, e₂, hs.flag]
    · obtain ⟨e₁, e₂⟩ := Prod.mk.inj e
      rw [e₁, e₂, Option.isSome_none]
    · obtain ⟨e₁, e₂⟩ := Prod.mk.inj e
      rw [e₁, e₂, Option.isSome_some]
  · rcases hm.found hs.nav hst with hst | ⟨k, rfl, hx⟩
    · obtain ⟨c, k, hc⟩ := hs.ends.drawn hst
      exact (hs.flags hst (back hc hp) hfail).step hm hs.nav hst
    · obtain ⟨_, -, hg, -⟩ := State.finds_eq_some.mp hx
      obtain ⟨c, k', hc⟩ := hs.nav.drawn hg
      have hp := back hc hp
      obtain rfl := hs.nav.nav.mem.path_of_goal hg hp
      have hf := closureFor_of_failed hfail (hs.nav.nav.mem.own p g hg hp)
      exact .inl ⟨k, p, _, (hm.finds hx).2.2 _ hf, rfl⟩

theorem EndsInv.start : EndsInv (navStart : State G W) where
  nav := .start
  ends := by constructor <;> simp [navStart, Mem.start]
  flag := rfl
  owes := nofun
  flags := nofun

theorem EndsInv.reach [DecidableEq G] {P : State G W → Action G W → Prop} {s : State G W}
    (h : (navigation G W).Reach P s) : EndsInv s :=
  h.invariant .start fun _ _ _ _ hstep hs => hs.step hstep

/-- **A failure surfaces.**  When `status_callback` has found that the goal of a path failed, the
path's failure closure sets `pending_failure_`, and only an update, which then requests a replan, a
new path or a `stop` clears it. -/
theorem failure_surfaces [DecidableEq G] {P : State G W → Action G W → Prop} {s : State G W}
    (h : (navigation G W).Reach P s) {i p : SessionId} {g : G} {st : GoalStatus}
    (hst : .status i g st ∈ s.mem.log) (hp : PathGoal s.mem.log p g) (hfail : st.failed = true) :
    s.Surfaces (.status i g st) p := by
  have hs := EndsInv.reach h
  rcases hs.flags hst hp hfail with hf | ⟨h₁, h₂, hlog, he⟩
  · exact .inl hf
  · refine .inr ⟨h₁, h₂, hlog, he, ?_⟩
    rw [hs.flag, Option.isSome_iff_ne_none]
    refine .imp_right (.imp_left hs.owes) ?_
    rw [hlog]
    exact pendingPath_append h₁ h₂ p

end EgbFleet
