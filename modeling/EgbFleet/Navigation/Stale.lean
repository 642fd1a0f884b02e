import EgbFleet.Navigation.Settled

/-!
# Navigation — no callback of a path that is over

A path is over once a `stop` or a later `follow_new_path` has returned (`Over`).  `invalidate`
empties its session, but not the closures that were copied out of it before.

`finished_not_over`: RMF's `path_finished_callback` of a path that is over is never called, in
runs where no closure that would call one is in flight when a path is followed or a `stop` ends
(`Settled Tail.finishes`).  Otherwise it can be (`finished_over`).
-/

namespace EgbFleet

variable {G W : Type}

/-! ### Paths that are over -/

def Event.follows (p : SessionId) : Event G W → Bool
  | .followed q _ => q == p
  | _ => false

/-- The event ends path `p`: a `stop` returns after `p` was followed, or the `follow_new_path` of
a later path returns. -/
def Ends (p : SessionId) : Event G W → List (Event G W) → Prop
  | .stopReturned, h => ∃ e ∈ h, e.follows p = true
  | .followReturned q, _ => p < q
  | _, _ => False

instance (p : SessionId) : ∀ (e : Event G W) (h : List (Event G W)), Decidable (Ends p e h)
  | .stopReturned, h => inferInstanceAs (Decidable (∃ e ∈ h, e.follows p = true))
  | .followReturned q, _ => inferInstanceAs (Decidable (p < q))
  | .followed _ _, _ | .stopCalled, _ | .cancelCalled, _ | .dockPlanned _ _, _
  | .undockPlanned _ _ _, _ | .goal _ _ _, _ | .sent _ _ _ _, _ | .status _ _ _, _ | .invoked _, _
  | .finished _, _ | .docked _, _ | .actionReturned _ _, _ | .flagged _, _ | .unflagged, _
  | .consumed, _ | .replan, _ | .feedback _ _, _ | .arrival _ _, _ =>
      inferInstanceAs (Decidable False)

/-- Path `p` is over. -/
def Over (h : List (Event G W)) (p : SessionId) : Prop := Log.Happened (Ends p) h

instance (h : List (Event G W)) (p : SessionId) : Decidable (Over h p) :=
  inferInstanceAs (Decidable (Log.Happened (Ends p) h))

/-- No `path_finished_callback` is called for a path that is over. -/
def NotStale : Event G W → List (Event G W) → Prop
  | .finished p, h => ¬ Over h p
  | _, _ => True

instance : ∀ (e : Event G W) (h : List (Event G W)), Decidable (NotStale e h)
  | .finished p, h => inferInstanceAs (Decidable (¬ Over h p))
  | .stopReturned, _ | .followReturned _, _ | .followed _ _, _ | .stopCalled, _ | .cancelCalled, _
  | .dockPlanned _ _, _ | .undockPlanned _ _ _, _ | .goal _ _ _, _ | .sent _ _ _ _, _
  | .status _ _ _, _ | .invoked _, _ | .docked _, _ | .actionReturned _ _, _ | .flagged _, _
  | .unflagged, _ | .consumed, _ | .replan, _ | .feedback _ _, _ | .arrival _ _, _ =>
      inferInstanceAs (Decidable True)

/-- An event that neither follows a path nor ends one. -/
def Event.neutral : Event G W → Bool
  | .followed _ _ | .followReturned _ | .stopReturned => false
  | _ => true

/-- A path that is over is not the current one. -/
structure OverOk (h : List (Event G W)) (n : SessionId) : Prop where
  followed : ∀ q, (∃ e ∈ h, e.follows q = true) → q < n
  returned : ∀ q, .followReturned q ∈ h → q < n
  notCurrent : ∀ p, Over h p → currentPath h ≠ some p

theorem lt_of_currentPath {h : List (Event G W)} {n q : SessionId} (ho : OverOk h n)
    (hq : currentPath h = some q) : q < n := by
  refine ho.followed q ?_
  clear ho
  induction h with
  | nil => cases hq
  | cons e h ih =>
      cases e with
      | followed p ws => cases hq; exact ⟨_, List.mem_cons_self, beq_self_eq_true _⟩
      | stopReturned => cases hq
      | _ =>
          obtain ⟨e, he, hf⟩ := ih hq
          exact ⟨e, List.mem_cons_of_mem _ he, hf⟩

theorem OverOk.record {h : List (Event G W)} {n : SessionId} (ho : OverOk h n) {e : Event G W}
    (he : e.neutral = true) : OverOk (e :: h) n where
  followed := fun q ⟨e', he', hf⟩ => by
    rcases List.mem_cons.mp he' with rfl | he'
    · cases e' with
      | followed _ _ => cases he
      | _ => cases hf
    · exact ho.followed q ⟨e', he', hf⟩
  returned := fun q hq => by
    rcases List.mem_cons.mp hq with rfl | hq
    · cases he
    · exact ho.returned q hq
  notCurrent := fun p hp => by
    have hcur : currentPath (e :: h) = currentPath h := by
      cases e with
      | followed _ _ | stopReturned => cases he
      | _ => rfl
    rw [hcur]
    rcases hp with hp | hp
    · cases e with
      | stopReturned | followReturned _ => cases he
      | _ => exact hp.elim
    · exact ho.notCurrent p hp

/-- A new path is followed. -/
theorem OverOk.follow {h : List (Event G W)} {n : SessionId} (ho : OverOk h n) (ws : List W) :
    OverOk (.followed n ws :: h) (n + 1) where
  followed := fun q ⟨e, he, hf⟩ => by
    rcases List.mem_cons.mp he with rfl | he
    · exact beq_iff_eq.mp hf ▸ Nat.lt_succ_self _
    · exact (ho.followed q ⟨e, he, hf⟩).trans (Nat.lt_succ_self _)
  returned := fun q hq => by
    rcases List.mem_cons.mp hq with hq | hq
    · cases hq
    · exact (ho.returned q hq).trans (Nat.lt_succ_self _)
  notCurrent := by
    rintro p (hp | hp) ⟨⟩
    · exact hp
    -- nothing in the log ends a path it does not know
    · obtain ⟨h₁, e, h₂, rfl, he⟩ := Log.happened_iff.mp hp
      cases e with
      | stopReturned =>
          obtain ⟨e, hmem, hf⟩ := he
          exact (ho.followed n ⟨e, by simp [hmem], hf⟩).ne rfl
      | followReturned q => exact (ho.returned q (by simp)).not_gt he
      | _ => exact he

/-- The `follow_new_path` of the current path returns. -/
theorem OverOk.return {h : List (Event G W)} {n q : SessionId} (ho : OverOk h n)
    (hq : currentPath h = some q) : OverOk (.followReturned q :: h) n where
  followed := fun p ⟨e, he, hf⟩ => by
    rcases List.mem_cons.mp he with rfl | he
    · cases hf
    · exact ho.followed p ⟨e, he, hf⟩
  returned := fun p hp => by
    rcases List.mem_cons.mp hp with hp | hp
    · cases hp; exact lt_of_currentPath ho hq
    · exact ho.returned p hp
  notCurrent := by
    rintro p (hp | hp) hc
    · exact hp.ne (Option.some.inj (hc.symm.trans hq))
    · exact ho.notCurrent p hp hc

theorem OverOk.stop {h : List (Event G W)} {n : SessionId} (ho : OverOk h n) :
    OverOk (.stopReturned :: h) n where
  followed := fun p ⟨e, he, hf⟩ => by
    rcases List.mem_cons.mp he with rfl | he
    · cases hf
    · exact ho.followed p ⟨e, he, hf⟩
  returned := fun p hp => ho.returned p ((List.mem_cons.mp hp).resolve_left fun h => by cases h)
  notCurrent := nofun

/-! ### Steps -/

/-- The log of a run in which no stale callback has been called. -/
structure StaleOk (m : Mem G W) : Prop where
  paths : OverOk m.log m.nextSession
  stale : Log.Justified NotStale m.log

theorem StaleOk.record {m : Mem G W} (hm : StaleOk m) {e : Event G W} (he : e.neutral = true)
    (hf : ∀ p, e = .finished p → currentPath m.log = some p) : StaleOk (m.record e) where
  paths := hm.paths.record he
  stale := by
    refine ⟨?_, hm.stale⟩
    cases e with
    | finished p => exact fun ho => hm.paths.notCurrent p ho (hf p rfl)
    | _ => trivial

/-- A neutral event that does not report a path as finished. -/
def Event.silent : Event G W → Bool
  | .finished _ => false
  | e => e.neutral

theorem StaleOk.quiet {m : Mem G W} (hm : StaleOk m) {e : Event G W} (he : e.silent = true) :
    StaleOk (m.record e) := by
  cases e with
  | finished p => cases he
  | _ => exact hm.record he nofun

theorem StaleOk.returnFrom {m : Mem G W} (hm : StaleOk m) {c : Caller}
    (hc : ∀ p, c.path? = some p → currentPath m.log = some p) : StaleOk (m.returnFrom c) := by
  cases c with
  | follow p => exact ⟨hm.paths.return (hc p rfl), trivial, hm.stale⟩
  | dock => exact hm
  | undock a =>
      have h₁ : StaleOk (m.setUndock a { m.undock a with state := .navigating }) := ⟨hm.1, hm.2⟩
      exact h₁.quiet rfl

def Tail.finishes : Tail → Bool
  | .arrived _ finished => finished
  | .failed _ => false

theorem ClosureStep.stale {alive : SessionId → Bool} {f : Firing} {f' : Option Firing}
    {m m' : Mem G W} (h : ClosureStep alive f m m' f') (hm : StaleOk m)
    (hf : FlyingOk Tail.finishes m.log f) : StaleOk m' := by
  have invoked (c : Closure) : StaleOk (m.record (.invoked c)) :=
    hm.quiet rfl
  cases h with
  | enterPath | enterFailure => split <;> exact ⟨(invoked _).1, (invoked _).2⟩
  | enterDock => exact (invoked _).quiet rfl
  | enterUndock => exact ⟨(invoked _).1, (invoked _).2⟩
  | reset => exact ⟨hm.1, hm.2⟩
  | @reportArrived p fin m =>
      cases fin with
      | true => exact hm.record rfl fun q hq => by cases hq; exact hf _ rfl rfl
      | false => exact hm
  | reportFailed =>
      have h₁ : StaleOk (m.setPendingFailure true) := ⟨hm.1, hm.2⟩
      exact h₁.quiet rfl

theorem PathStep.stale {alive : SessionId → Bool} {r : PathRequest G W} {m m' : Mem G W}
    {e' : Exec G W} (h : PathStep alive r m m' e') (hm : StaleOk m)
    (hc : ∀ p, r.caller.path? = some p → currentPath m.log = some p) : StaleOk m' := by
  have h₁ : StaleOk m.newCall := ⟨hm.1, hm.2⟩
  have draw : StaleOk (m.drawGoal r) := h₁.quiet rfl
  cases h with
  | locked | lost => exact draw
  | lostSilent => exact draw.returnFrom hc

theorem ExecStep.stale {alive : SessionId → Bool} {e e' : Exec G W} {m m' : Mem G W}
    (h : ExecStep alive e m m' e') (hm : StaleOk m) (hnav : NavOk m e)
    (hf : ∀ p, e.follows? = some p → currentPath m.log = some p) : StaleOk m' := by
  have flag : StaleOk (m.setPendingFailure false) := ⟨hm.1, hm.2⟩
  have cleared : StaleOk ((m.setPendingFailure false).record .unflagged) := flag.quiet rfl
  -- the executor's closure is of the path it follows
  have own {j : PathJob G W} {i : Option SessionId} {f : Firing} (he : ExecOk m (.fire j i f))
      (hf : ∀ p, (Exec.fire j i f : Exec G W).follows? = some p → currentPath m.log = some p) :
      FlyingOk Tail.finishes m.log f := fun t ht _ => by
    obtain ⟨hj, k, hk, hof⟩ := he
    exact hf _ (Caller.path?_eq_some.mpr
      (hj.made.path hk (Closure.path?_of_tail? (hof.tail? ▸ ht))))
  cases h with
  | invalidateOld | setSession | install | notAccepted | stopInvalidate | stopReset =>
      exact ⟨hm.1, hm.2⟩
  | armSession => exact ⟨cleared.1, cleared.2⟩
  | executePath h => exact h.stale hm hf
  | handOver => exact hm.quiet rfl
  | accepted => exact hm.returnFrom hf
  | @notAcceptedSilent j i m hk =>
      have h₁ : StaleOk (m.modify i .markDone) := ⟨hm.1, hm.2⟩
      exact h₁.returnFrom hf
  | fire h => exact h.stale hm (own hnav.exec hf)
  | fired h =>
      exact (h.stale hm (own hnav.exec hf)).returnFrom fun p hp => h.current.trans (hf p hp)
  | stopCancel | cancel => split <;> exact ⟨hm.1, hm.2⟩
  | stopClear => exact ⟨cleared.paths.stop, trivial, cleared.stale⟩
  | refused | stopRead | stopReadNone => exact hm

theorem CallStep.stale {alive : SessionId → Bool} {c : Call G W} {e' : Exec G W} {m m' : Mem G W}
    (h : CallStep alive c m m' e') (hm : StaleOk m) : StaleOk m' := by
  have followed (limits : List ℚ) (ws : List W) :
      StaleOk ((m.newSession limits).record (.followed m.nextSession ws)) :=
    ⟨hm.paths.follow ws, trivial, hm.stale⟩
  cases h with
  | @followEmpty limits est fin net m =>
      have h₁ : StaleOk (if fin then
          ((m.newSession limits).record (.followed m.nextSession [])).record
            (.finished m.nextSession)
          else (m.newSession limits).record (.followed m.nextSession [])) := by
        split
        · exact (followed limits []).record rfl fun p hp => by cases hp; rfl
        · exact followed limits []
      refine ⟨h₁.paths.return ?_, trivial, h₁.stale⟩
      split <;> rfl
  | follow | followOver => exact ⟨(followed _ _).1, (followed _ _).2⟩
  | stop | stopNone | cancelNavigation | cancelNone => exact hm.quiet rfl
  | noDock =>
      split
      · exact hm.quiet rfl
      · exact hm
  | @dock ws fin net m m' e' h =>
      have h₁ : StaleOk (m.record (.dockPlanned m.nextCall ws)) := hm.quiet rfl
      exact h.stale h₁ fun _ hp => by cases hp
  | @undock a env ws net m m' e' ha _ _ _ h =>
      have h₁ : StaleOk (m.record (.undockPlanned a m.nextCall ws)) := hm.quiet rfl
      exact h.stale h₁ fun _ hp => by cases hp
  | @undockReturns a env net m state ret hc =>
      have h₁ : StaleOk (m.setUndock a { m.undock a with state }) := ⟨hm.1, hm.2⟩
      exact h₁.quiet rfl

theorem UpdateStep.stale {u u' : UpdateThread} {m m' : Mem G W} (h : UpdateStep u m m' u')
    (hm : StaleOk m) : StaleOk m' := by
  cases h with
  | read => exact hm
  | drainTake => exact ⟨hm.1, hm.2⟩
  | drainForward | replan => exact hm.quiet rfl
  | takeFailure =>
      have h₁ : StaleOk (m.setPendingFailure false) := ⟨hm.1, hm.2⟩
      exact h₁.quiet rfl

theorem StatusStep.stale [DecidableEq G] {alive : SessionId → Bool} {t t' : StatusThread G}
    {m m' : Mem G W} (h : StatusStep alive t m m' t') (hm : StaleOk m)
    (ht : t.Fires fun _ => FlyingOk Tail.finishes m.log) : StaleOk m' := by
  have found {i g st} : StaleOk (m.record (.status i g st)) := hm.quiet rfl
  cases h with
  | quiet => exact hm
  | silent => split <;> exact ⟨found.1, found.2⟩
  | take => exact ⟨found.1, found.2⟩
  | fire h | fired h => exact h.stale hm ht

theorem StaleOk.step [DecidableEq G] {s s' : State G W} {a : Action G W}
    (hs : SettledInv Tail.finishes s) (h : navStep s a = some s') (hm : StaleOk s.mem) :
    StaleOk s'.mem := by
  cases navStep_moves h with
  | call c idle fresh => exact (callStep s.alive c s.mem).stale hm
  | exec busy => exact (execStep s.alive busy s.mem).stale hm hs.nav.nav hs.follows
  | update => exact (updateStep s.update s.mem).stale hm
  | recvStatus entries => exact hm
  | status k t at_k =>
      exact (statusStep s.alive t s.mem).stale hm (hs.flying t (List.mem_of_getElem? at_k))
  | recvFeedback msg idle =>
      have h₁ : StaleOk s.mem.newReceipt := ⟨hm.1, hm.2⟩
      exact h₁.quiet rfl
  | feedback =>
      refine ⟨?_, by rw [FeedbackThread.log]; exact hm.stale⟩
      rw [FeedbackThread.log]
      cases ht : s.feedback <;> exact hm.paths

theorem StaleOk.start : StaleOk (Mem.start : Mem G W) where
  paths := ⟨fun _ h => (by simp [Mem.start] at h), nofun, fun _ h => h.elim⟩
  stale := trivial

/-- **No stale callback.**  In settled runs RMF's `path_finished_callback` of a path is never
called after a `stop` or a later `follow_new_path` has returned. -/
theorem finished_not_over [DecidableEq G] {t : State G W}
    (h : (navigation G W).Reach (Settled Tail.finishes) t) :
    Log.Justified NotStale t.mem.log := by
  have hm : StaleOk t.mem :=
    h.invariant_of (I := fun s : State G W => StaleOk s.mem) (fun _ hs => SettledInv.reach hs)
      .start fun _ _ _ _ hstep hs hm => hm.step hs hstep
  exact hm.stale

theorem finished_not_over_arrival :
    ∃ t, (navigation ℕ ℕ).Run (Settled Tail.finishes) navStart arrival t ∧
      .finished 0 ∈ t.mem.log ∧ Log.Justified NotStale t.mem.log := by
  obtain ⟨t, ht, hq⟩ := Lts.exists_run (navigation ℕ ℕ) (Settled Tail.finishes) navStart arrival
    (fun t => decide (.finished 0 ∈ t.mem.log)) (by decide)
  exact ⟨t, ht, of_decide_eq_true hq, finished_not_over ⟨_, ht⟩⟩

/-- The status callback that has taken the closure of path 0 is overtaken by a whole `stop`, and
then calls `path_finished_callback`. -/
theorem finished_over :
    ¬ ∀ t : State ℕ ℕ, (navigation ℕ ℕ).Reach (fun _ _ => True) t →
      Log.Justified NotStale t.mem.log := by
  intro h
  obtain ⟨t, ht, hq⟩ := Lts.exists_run (navigation ℕ ℕ) (fun _ _ => True) navStart
    (arrival.take 10 ++ [.call .stop, .exec, .exec, .exec, .exec, .exec, .status 0, .status 0,
      .status 0])
    (fun t => decide (¬ Log.Justified NotStale t.mem.log)) (by decide)
  exact of_decide_eq_true hq (h t ⟨_, ht⟩)

end EgbFleet
