import EgbFleet.Navigation.Installed

/-!
# Navigation — the current path

The current path is the one most recently given to `follow_new_path`, until a `stop` returns
(`currentPath`).  The path the executor is setting up is the current one (`NavInv.current`).

In orderly runs only the session in `session_` has the closures of a path in it
(`Solo.armed`); a session that `follow_new_path` has just replaced has them until it is
invalidated in the next step.
-/

namespace EgbFleet

variable {G W : Type}

/-- The path most recently given to `follow_new_path`, if no `stop` has returned since. -/
def currentPath : List (Event G W) → Option SessionId
  | [] => none
  | .followed p _ :: _ => some p
  | .stopReturned :: _ => none
  | _ :: h => currentPath h

/-- The executor's next step ends a `stop`. -/
def Exec.clears : Exec G W → Bool
  | .stopClear _ => true
  | _ => false

/-! ### Who changes the current path -/

theorem current_returnFrom (c : Caller) (m : Mem G W) :
    currentPath (m.returnFrom c).log = currentPath m.log := by
  cases c <;> rfl

theorem ClosureStep.current {alive : SessionId → Bool} {f : Firing} {f' : Option Firing}
    {m m' : Mem G W} (h : ClosureStep alive f m m' f') :
    currentPath m'.log = currentPath m.log := by
  cases h with
  | enterPath | enterFailure | reportArrived => split <;> rfl
  | enterDock | enterUndock | reset | reportFailed => rfl

theorem PathStep.current {alive : SessionId → Bool} {r : PathRequest G W} {m m' : Mem G W}
    {e' : Exec G W} (h : PathStep alive r m m' e') : currentPath m'.log = currentPath m.log := by
  cases h with
  | locked | lost => rfl
  | lostSilent => exact current_returnFrom _ _

theorem ExecStep.current {alive : SessionId → Bool} {e e' : Exec G W} {m m' : Mem G W}
    (h : ExecStep alive e m m' e') :
    currentPath m'.log = currentPath m.log ∨ ∃ held, e = .stopClear held := by
  cases h with
  | executePath h => exact .inl h.current
  | accepted | notAcceptedSilent => exact .inl (current_returnFrom _ _)
  | fire h => exact .inl h.current
  | fired h => exact .inl ((current_returnFrom _ _).trans h.current)
  | stopCancel | cancel => split <;> exact .inl rfl
  | stopClear => exact .inr ⟨_, rfl⟩
  | _ => exact .inl rfl

theorem StatusStep.current [DecidableEq G] {alive : SessionId → Bool} {t t' : StatusThread G}
    {m m' : Mem G W} (h : StatusStep alive t m m' t') : currentPath m'.log = currentPath m.log := by
  cases h with
  | quiet | take => rfl
  | silent => split <;> rfl
  | fire h | fired h => exact h.current

theorem UpdateStep.current {u u' : UpdateThread} {m m' : Mem G W} (h : UpdateStep u m m' u') :
    currentPath m'.log = currentPath m.log := by
  cases h with
  | read | drainTake | drainForward | takeFailure | replan => rfl

theorem FeedbackThread.log [DecidableEq G] (alive : SessionId → Bool) (t : FeedbackThread G)
    (m : Mem G W) : (t.step alive m).1.log = m.log := by
  cases t <;> rfl

theorem CallStep.current {alive : SessionId → Bool} {c : Call G W} {e' : Exec G W} {m m' : Mem G W}
    (h : CallStep alive c m m' e') :
    currentPath m'.log = if c.isFollow then some m.nextSession else currentPath m.log := by
  cases h with
  | followEmpty => rw [Mem.record_log]; split <;> rfl
  | follow | followOver => rfl
  | noDock => split <;> rfl
  | dock h | undock _ _ _ _ h => exact h.current
  | _ => rfl

/-- Only `follow_new_path` and the end of `stop` change the current path. -/
theorem Moves.current [DecidableEq G] {s s' : State G W} {a : Action G W} (h : Moves s a s') :
    currentPath s'.mem.log = currentPath s.mem.log ∨ (∃ c, a = .call c ∧ c.isFollow = true) ∨
      ∃ held, a = .exec ∧ s.exec = .stopClear held := by
  cases h with
  | call c idle fresh =>
      rw [(callStep s.alive c s.mem).current]
      split
      · rename_i hc; exact .inr (.inl ⟨c, rfl, hc⟩)
      · exact .inl rfl
  | exec busy =>
      rcases (execStep s.alive busy s.mem).current with e | ⟨held, e⟩
      · exact .inl e
      · exact .inr (.inr ⟨held, rfl, e⟩)
  | update => exact .inl (updateStep s.update s.mem).current
  | recvStatus | recvFeedback => exact .inl rfl
  | status k t at_k => exact .inl (statusStep s.alive t s.mem).current
  | feedback => exact .inl (by rw [FeedbackThread.log])

/-! ### The executor's path is the current one -/

theorem PathStep.follows {alive : SessionId → Bool} {r : PathRequest G W} {m m' : Mem G W}
    {e' : Exec G W} (h : PathStep alive r m m' e') {p : SessionId} (hp : e'.follows? = some p) :
    r.caller.path? = some p := by
  cases h with
  | locked | lost => exact hp
  | lostSilent => cases hp

theorem ExecStep.follows {alive : SessionId → Bool} {e e' : Exec G W} {m m' : Mem G W}
    (h : ExecStep alive e m m' e') {p : SessionId} (hp : e'.follows? = some p) :
    e.follows? = some p := by
  cases h with
  | invalidateOld | armSession | setSession | install | handOver | refused | notAccepted | fire =>
      exact hp
  | executePath h => exact h.follows hp
  | _ => cases hp

theorem CallStep.follows {alive : SessionId → Bool} {c : Call G W} {e' : Exec G W} {m m' : Mem G W}
    (h : CallStep alive c m m' e') {p : SessionId} (hp : e'.follows? = some p) :
    c.isFollow = true ∧ p = m.nextSession := by
  cases h with
  | follow | followOver => cases hp; exact ⟨rfl, rfl⟩
  | dock h | undock _ _ _ _ h => cases h.follows hp
  | _ => cases hp

theorem follows_current_step [DecidableEq G] {s s' : State G W} {a : Action G W}
    (h : navStep s a = some s')
    (hs : ∀ p, s.exec.follows? = some p → currentPath s.mem.log = some p) :
    ∀ p, s'.exec.follows? = some p → currentPath s'.mem.log = some p := by
  intro p hp
  cases navStep_moves h with
  | call c idle fresh =>
      obtain ⟨hc, rfl⟩ := (callStep s.alive c s.mem).follows hp
      rw [(callStep s.alive c s.mem).current, if_pos hc]
  | exec busy =>
      have he := (execStep s.alive busy s.mem).follows hp
      rcases (execStep s.alive busy s.mem).current with e | ⟨held, e⟩
      · exact e.trans (hs p he)
      · rw [e] at he; cases he
  | update => exact (updateStep s.update s.mem).current.trans (hs p hp)
  | recvStatus | recvFeedback => exact hs p hp
  | status k t at_k => exact (statusStep s.alive t s.mem).current.trans (hs p hp)
  | feedback => rw [FeedbackThread.log]; exact hs p hp

/-! ### Only the stored session is armed -/

/-- The path whose goal the executor has yet to install. -/
def Exec.setsUp? : Exec G W → Option SessionId
  | .invalidateOld f _ | .armSession f | .setSession f | .executePath f => some f.path
  | .install j _ => j.request.caller.path?
  | _ => none

theorem NavOk.unstarted {m : Mem G W} {e : Exec G W} (hm : NavOk m e) {p : SessionId}
    (hp : e.setsUp? = some p) : Unstarted m p := by
  have he := hm.exec
  cases e with
  | invalidateOld f old | setSession f | executePath f => cases hp; exact he.1.unstarted
  | armSession f => cases hp; exact Setup.unstarted he
  | install j i => exact (he.2 p (Caller.path?_eq_some.mp hp)).1
  | _ => cases hp

/-- The executor holds a replaced session it has yet to invalidate. -/
def Exec.replaces : Exec G W → Bool
  | .invalidateOld _ _ => true
  | _ => false

/-- What the executor knows of `session_` while it clears it. -/
def ClearOk (m : Mem G W) : Exec G W → Prop
  | .fire _ _ (.reset t) => Unarmed (m.sessions t.path)
  | .stopInvalidate i => Holds m i
  | .stopReset _ => ∀ p, m.session = some p → Unarmed (m.sessions p)
  | .stopClear _ => m.session = none
  | _ => True

/-- Only the session in `session_` is armed, or the one about to be invalidated. -/
structure Solo (m : Mem G W) (e : Exec G W) : Prop where
  setup : ∀ p, e.setsUp? = some p → m.session = some p
  armed : ∀ p, Unarmed (m.sessions p) ∨ m.session = some p ∨ ∃ f, e = .invalidateOld f p
  clear : ClearOk m e

theorem Tame.unarmed {m m' : Mem G W} (h : Tame m m') {p : SessionId}
    (hp : Unarmed (m.sessions p)) : Unarmed (m'.sessions p) := by
  rcases h.sessions p with e | e
  · exact e.unarmed hp
  · exact e.unarmed

theorem ClearOk.tame {m m' : Mem G W} {e : Exec G W} (he : ClearOk m e) (h : Tame m m') :
    ClearOk m' e := by
  have stored {p : SessionId} (hp : m'.session = some p) : m.session = some p := by
    rcases h.session with e | e
    · exact e.symm.trans hp
    · rw [e] at hp; cases hp
  cases e with
  | fire j i f =>
      cases f with
      | reset t => exact h.unarmed he
      | enter _ | report _ => trivial
  | stopInvalidate i => exact Holds.of_session he h.session
  | stopReset held => exact fun p hp => h.unarmed (he p (stored hp))
  | stopClear held =>
      rcases h.session with e | e
      · exact e.trans he
      · exact e
  | _ => trivial

/-- A tame step of another thread, or one of the executor's that keeps `session_`, unless what it
clears is unarmed and not being set up. -/
theorem Solo.tame {m m' : Mem G W} {e e' : Exec G W} (hm : Solo m e) (h : Tame m m')
    (hsess : m'.session = m.session ∨
      ∀ p, m.session = some p → Unarmed (m.sessions p) ∧ e'.setsUp? ≠ some p)
    (hset : ∀ p, e'.setsUp? = some p → e.setsUp? = some p)
    (hold : ∀ f p, e = .invalidateOld f p → Unarmed (m'.sessions p) ∨ e' = e)
    (hc : ClearOk m' e') : Solo m' e' where
  setup := fun p hp => by
    have hm := hm.setup p (hset p hp)
    rcases hsess with e | hu
    · exact e.trans hm
    · exact absurd hp (hu p hm).2
  armed := fun p => by
    rcases hm.armed p with hu | hp | ⟨f, rfl⟩
    · exact .inl (h.unarmed hu)
    · rcases hsess with e | hu
      · exact .inr (.inl (e.trans hp))
      · exact .inl (h.unarmed (hu p hp).1)
    · rcases hold f p rfl with hu | rfl
      · exact .inl hu
      · exact .inr (.inr ⟨f, rfl⟩)
  clear := hc

/-- A status callback clears `session_` only of the session of its own closure, which it has
already invalidated. -/
theorem Solo.status [DecidableEq G] {s : State G W} (hs : OrderlyInv s) (hm : Solo s.mem s.exec)
    {k : Nat} {t : StatusThread G} (at_k : s.status[k]? = some t) :
    Solo (t.step s.alive s.mem).1 s.exec := by
  have ht := hs.nav.status t (List.mem_of_getElem? at_k)
  have hk := statusStep s.alive t s.mem
  have htame := (hk.zenohStep ht).toTame
  refine hm.tame htame ?_ (fun _ => id) (fun _ _ _ => .inr rfl) (hm.clear.tame htame)
  rcases hk.session with e | ⟨-, i, u, rfl⟩
  · exact .inl e
  · refine .inr fun p hp => ?_
    have hown : u.path = p := by
      rcases hs.resets _ (List.mem_of_getElem? at_k) u.path rfl with e | e
      · rw [hp] at e; cases e
      · exact Option.some.inj (e.symm.trans hp)
    obtain rfl : p = i := hown ▸ ht.path rfl
    obtain ⟨c, hc, -⟩ := ht
    obtain ⟨g, st, hst, hterm⟩ := hc.status
    exact ⟨(hs.nav.nav.mem.ended hst).2 hterm,
      fun hup => (hs.nav.nav.unstarted hup).unseen g st hst⟩

theorem Solo.armed_of {m : Mem G W} {e : Exec G W} (hm : Solo m e) (he : e.replaces = false)
    (p : SessionId) : Unarmed (m.sessions p) ∨ m.session = some p := by
  rcases hm.armed p with hu | hs | ⟨f, rfl⟩
  · exact .inl hu
  · exact .inr hs
  · cases he

/-- The executor leaves `session_` alone, and is setting up no path. -/
theorem Solo.next {m m' : Mem G W} {e e' : Exec G W} (hm : Solo m e) (h : Tame m m')
    (hsess : m'.session = m.session) (he : e.replaces = false) (he' : e'.setsUp? = none)
    (hc : ClearOk m' e') : Solo m' e' := by
  refine hm.tame h (.inl hsess) (fun p hp => ?_) (fun f p hf => ?_) hc
  · rw [he'] at hp; cases hp
  · rw [hf] at he; cases he

/-- One session is rewritten, to one that is unarmed if it was or that is stored. -/
theorem Solo.modify {m : Mem G W} {e e' : Exec G W} (hm : Solo m e) {i : SessionId}
    {f : NavigationSession G → NavigationSession G}
    (hi : Unarmed (f (m.sessions i)) ∨ m.session = some i)
    (hset : ∀ p, e'.setsUp? = some p → e.setsUp? = some p) (he : e.replaces = false)
    (hc : ClearOk (m.modify i f) e') : Solo (m.modify i f) e' where
  setup := fun p hp => hm.setup p (hset p hp)
  armed := fun p => by
    by_cases hp : p = i
    · subst hp
      rw [Mem.sessions_modify_self]
      exact hi.imp_right .inl
    · rw [Mem.sessions_modify_of_ne _ _ _ hp]
      exact (hm.armed_of he p).imp_right .inl
  clear := hc

theorem Solo.markDone {m : Mem G W} {e : Exec G W} (hm : Solo m e) (he : e.replaces = false)
    {i : SessionId} : Solo (m.modify i .markDone) .idle :=
  hm.modify ((hm.armed_of he i).imp_left fun hu => ⟨hu.failure, hu.completion⟩) nofun he trivial

/-- `execute_path`, whose caller has nothing else to invalidate. -/
theorem PathStep.solo {alive : SessionId → Bool} {r : PathRequest G W} {m m' : Mem G W}
    {e e' : Exec G W} (h : PathStep alive r m m' e') (hm : Solo m e)
    (hset : ∀ p, r.caller.path? = some p → e.setsUp? = some p) (he : e.replaces = false) :
    Solo m' e' where
  setup := fun p hp => by
    rw [h.session]
    cases h with
    | locked => exact hm.setup p (hset p hp)
    | lost | lostSilent => cases hp
  armed := fun p => by
    rw [h.session, h.sessions]
    exact (hm.armed_of he p).imp_right .inl
  clear := by
    cases h with
    | locked | lost | lostSilent => trivial

theorem unarmed_install {m : Mem G W} {j : PathJob G W} {i : SessionId}
    (hj : JobOk m.log j (some i)) (hp : j.request.caller ≠ .follow i)
    (hu : Unarmed (m.sessions i)) :
    Unarmed ((m.sessions i).install j.request.net.goalId j.completion j.request.estimator) :=
  ⟨hu.failure, fun _ hk => Option.eq_none_iff_forall_ne_some.mpr fun q hq => by
    have hc := hj.made.path hk hq
    cases hj.follow q hc
    exact hp hc⟩

/-- The executor enters its own closure, and invalidates the session. -/
theorem ClosureStep.clearOk {alive : SessionId → Bool} {j : PathJob G W} {i : Option SessionId}
    {f f' : Firing} {m m' : Mem G W} (h : ClosureStep alive f m m' (some f'))
    (he : ExecOk m (.fire j i f))
    (halive : ∀ p, (Exec.fire j i f : Exec G W).holds p = true → alive p = true) :
    ClearOk m' (.fire j i f' : Exec G W) := by
  obtain ⟨hj, k, hk, hof⟩ := he
  cases h with
  | @enterPath k' p fin m hk' =>
      cases hof
      have hc : j.request.caller = .follow p := by
        refine hj.made.path hk ?_
        obtain ⟨n, kind⟩ := k
        cases hk'
        rfl
      have hp : alive p = true := halive p (by simp [Exec.holds, hc, Caller.holds])
      simp only [ClearOk, Tail.path, hp, if_true, Mem.sessions_modify_self]
      exact (invalid_invalidate _).unarmed
  | enterFailure => cases hof
  | reset => trivial

theorem ExecStep.solo {s : State G W} (hs : NavInv s) (hm : Solo s.mem s.exec) {m' : Mem G W}
    {e' : Exec G W} (h : ExecStep s.alive s.exec s.mem m' e') : Solo m' e' := by
  have halive := fun i => Exec.alive (s := s) (i := i)
  have hnav := hs.nav
  have hreset (j i t) (he : s.exec = .fire j i (.reset t)) (p) (hp : s.mem.session = some p) :
      Unarmed (s.mem.sessions p) := by
    have hown : t.path = p := by
      rcases hs.exec_holds (f := .reset t) (p := t.path) (by rw [he]; rfl) rfl with e | e
      · rw [hp] at e; cases e
      · exact Option.some.inj (e.symm.trans hp)
    have hc := hm.clear
    rw [he] at hc
    exact hown ▸ hc
  generalize s.exec = e, s.mem = m at h hm hnav halive hreset
  cases h with
  | @invalidateOld f old m =>
      refine hm.tame (.invalidate _ _) (.inl rfl) (fun _ => id) ?_ trivial
      rintro _ _ ⟨⟩
      rw [Mem.sessions_modify_self]
      exact .inl (invalid_invalidate _).unarmed
  | @armSession f m =>
      have h₁ : Solo ((m.setPendingFailure false).record .unflagged) (.armSession f) :=
        hm.tame ((Tame.setPendingFailure m false).trans (.record _ rfl)) (.inl rfl) (fun _ => id)
          nofun trivial
      exact h₁.modify (.inr (hm.setup f.path rfl)) (fun _ => id) rfl trivial
  | @setSession f m => exact ⟨hm.setup, fun p => (hm.armed_of rfl p).imp_right .inl, trivial⟩
  | executePath h => exact h.solo hm (fun _ => id) rfl
  | @install j i m =>
      refine hm.modify ?_ nofun rfl trivial
      by_cases hc : j.request.caller = .follow i
      · exact .inr (hm.setup i (Caller.path?_eq_some.mpr hc))
      · exact (hm.armed_of rfl i).imp_left (unarmed_install hnav.exec.1 hc)
  | handOver => exact hm.next (.record _ rfl) rfl rfl rfl trivial
  | accepted => exact hm.next (.returnFrom _ _) (Mem.session_returnFrom _ _) rfl rfl trivial
  | refused => exact hm.next (.refl _) rfl rfl rfl trivial
  | notAccepted hk => exact (hm.markDone rfl).next (.refl _) rfl rfl rfl trivial
  | notAcceptedSilent hk =>
      exact (hm.markDone rfl).next (.returnFrom _ _) (Mem.session_returnFrom _ _) rfl rfl trivial
  | fire h =>
      refine hm.tame h.tame ?_ nofun nofun (h.clearOk hnav.exec halive)
      rcases h.session with e | ⟨-, t, rfl⟩
      · exact .inl e
      · exact .inr fun p hp => ⟨hreset _ _ t rfl p hp, nofun⟩
  | fired h =>
      refine hm.tame (h.tame.trans (.returnFrom _ _)) ?_ nofun nofun trivial
      rw [Mem.session_returnFrom]
      rcases h.session with e | ⟨-, t, rfl⟩
      · exact .inl e
      · exact .inr fun p hp => ⟨hreset _ _ t rfl p hp, nofun⟩
  | stopCancel | cancel =>
      split
      · exact hm.next (.invalidate _ _) rfl rfl rfl trivial
      · exact hm.next (.refl _) rfl rfl rfl trivial
  | stopRead hi => exact hm.next (.refl _) rfl rfl rfl (.inr hi)
  | stopReadNone hi =>
      exact hm.next (.refl _) rfl rfl rfl fun p hp => by rw [hi] at hp; cases hp
  | @stopInvalidate i m =>
      refine hm.next (.invalidate _ _) rfl rfl rfl fun p hp => ?_
      rcases hm.clear with e | e
      · rw [Mem.modify_session, e] at hp; cases hp
      · cases hp.symm.trans e
        rw [Mem.sessions_modify_self]
        exact (invalid_invalidate _).unarmed
  | stopReset =>
      exact hm.tame (.setSession _) (.inr fun p hp => ⟨hm.clear p hp, nofun⟩) nofun nofun rfl
  | stopClear =>
      exact hm.next (((Tame.setPendingFailure _ _).trans (.record _ rfl)).trans (.record _ rfl)) rfl
        rfl rfl trivial

theorem Solo.newSession {m : Mem G W} (hm : Solo m .idle) (limits : List ℚ) :
    Solo (m.newSession limits) .idle where
  setup := nofun
  armed := fun p =>
    Mem.sessions_newSession_rec m limits p (.inl ⟨rfl, nofun⟩) fun _ => hm.armed p
  clear := trivial

/-- `session_` is replaced. -/
theorem Solo.follow {m : Mem G W} {e' : Exec G W} {p : SessionId} (hm : Solo m .idle)
    (hset : ∀ q, e'.setsUp? = some q → q = p)
    (hold : ∀ q, m.session = some q → ∃ f, e' = .invalidateOld f q) (hc : ∀ m, ClearOk m e') :
    Solo (m.setSession (some p)) e' where
  setup := fun q hq => congrArg some (hset q hq).symm
  armed := fun q => by
    rcases hm.armed q with hu | hq | ⟨f, he⟩
    · exact .inl hu
    · exact .inr (.inr (hold q hq))
    · cases he
  clear := hc _

theorem CallStep.solo {alive : SessionId → Bool} {c : Call G W} {e' : Exec G W} {m m' : Mem G W}
    (h : CallStep alive c m m' e') (hm : Solo m .idle) : Solo m' e' := by
  have record {m : Mem G W} (hm : Solo m .idle) (ev : Event G W) (he : ev.quiet = true) :
      Solo (m.record ev) .idle :=
    hm.next (.record m he) rfl rfl rfl trivial
  cases h with
  | @followEmpty limits est fin net m =>
      have h₁ := record (hm.newSession limits) (.followed m.nextSession []) rfl
      refine record ?_ _ rfl
      split
      · exact record h₁ _ rfl
      · exact h₁
  | @follow ws limits est fin net m hws hs =>
      have h₁ := record (hm.newSession limits) (.followed m.nextSession ws) rfl
      refine h₁.follow (fun q hq => ?_) (fun q hq => ?_) fun _ => trivial
      · cases hq; rfl
      · exact absurd (hs.symm.trans hq) (by simp)
  | @followOver ws limits est fin net old m hws hs =>
      have h₁ := record (hm.newSession limits) (.followed m.nextSession ws) rfl
      refine h₁.follow (fun q hq => ?_) (fun q hq => ?_) fun _ => trivial
      · cases hq; rfl
      · cases hs.symm.trans hq; exact ⟨_, rfl⟩
  | stop | stopNone | cancelNavigation | cancelNone =>
      exact hm.next (.record _ rfl) rfl rfl rfl trivial
  | noDock =>
      split
      · exact record hm _ rfl
      · exact hm
  | @dock ws fin net m m' e' h =>
      exact h.solo (record hm (.dockPlanned m.nextCall ws) rfl) nofun rfl
  | @undock a env ws net m m' e' ha _ _ _ h =>
      exact h.solo (record hm (.undockPlanned a m.nextCall ws) rfl) nofun rfl
  | undockReturns hc =>
      exact hm.next ((Tame.setUndock _ _ _).trans (.record _ rfl)) rfl rfl rfl trivial

/-- What holds in orderly runs: only the path whose session is stored has a reset ahead of it,
and only its session is armed. -/
structure SoloInv (s : State G W) : Prop extends OrderlyInv s where
  solo : Solo s.mem s.exec

theorem SoloInv.step [DecidableEq G] {s s' : State G W} {a : Action G W} (hP : Orderly s a)
    (h : navStep s a = some s') (hs : SoloInv s) : SoloInv s' := by
  refine ⟨hs.toOrderlyInv.step hP h, ?_⟩
  have other {m' : Mem G W} (ht : Tame s.mem m') (hsess : m'.session = s.mem.session) :
      Solo m' s.exec :=
    hs.solo.tame ht (.inl hsess) (fun _ => id) (fun _ _ _ => .inr rfl) (hs.solo.clear.tame ht)
  cases navStep_moves h with
  | call c idle fresh => exact (callStep s.alive c s.mem).solo (idle ▸ hs.solo)
  | exec busy => exact (execStep s.alive busy s.mem).solo hs.nav hs.solo
  | update =>
      have hu := updateStep s.update s.mem
      exact other hu.zenohStep.toTame hu.session
  | recvStatus entries => exact hs.solo
  | status k t at_k => exact hs.solo.status hs.toOrderlyInv at_k
  | recvFeedback msg idle =>
      refine other (.trans ?_ (.record _ rfl)) rfl
      exact .of_log (.of_log rfl le_rfl le_rfl) rfl rfl rfl id
  | feedback =>
      exact other (FeedbackThread.zenohStep s.alive s.feedback s.mem).toTame
        (FeedbackThread.session _ _ _)

theorem SoloInv.start : SoloInv (navStart : State G W) where
  nav := .start
  resets := by simp [navStart]
  solo := ⟨nofun, fun _ => .inl ⟨rfl, nofun⟩, trivial⟩

end EgbFleet
