import EgbFleet.Navigation.Installed

/-!
# Navigation — who holds a session

A session that no thread and no `PathHandle` holds is destroyed, with the callbacks in it.  It
stays so (`Moves.alive`): whoever gets hold of a session gets it from one who held it, except for
the `follow_new_path` that makes it.
-/

namespace EgbFleet

variable {G W : Type}

/-! ### Who holds a session -/

theorem PathStep.holds {alive : SessionId → Bool} {r : PathRequest G W} {m m' : Mem G W}
    {e' : Exec G W} (h : PathStep alive r m m' e') {i : SessionId} (hi : e'.holds i = true) :
    r.caller.holds i = true ∨ alive i = true := by
  cases h with
  | locked hl =>
      rcases Bool.or_eq_true_iff.mp hi with hi | hi
      · exact .inl hi
      · exact .inr (beq_iff_eq.mp hi ▸ (Mem.lock_eq_some.mp hl).2)
  | lost =>
      rcases Bool.or_eq_true_iff.mp hi with hi | hi
      · exact .inl hi
      · cases hi
  | lostSilent => cases hi

theorem ExecStep.holds {alive : SessionId → Bool} {e e' : Exec G W} {m m' : Mem G W}
    (h : ExecStep alive e m m' e') {i : SessionId} (hi : e'.holds i = true) :
    e.holds i = true ∨ alive i = true ∨ m.session = some i := by
  cases h with
  | invalidateOld => exact .inl (Bool.or_eq_true_iff.mpr (.inl hi))
  | executePath h => exact (h.holds hi).imp_right .inl
  | stopRead hs => exact .inr (.inr (beq_iff_eq.mp hi ▸ hs))
  | notAccepted => exact .inl (by simpa [Exec.holds] using hi)
  | accepted | notAcceptedSilent | fired | stopCancel | stopReadNone | stopClear | cancel =>
      cases hi
  | stopInvalidate => exact .inl (by simpa [Exec.holds] using hi)
  | armSession | setSession | install | handOver | refused | fire | stopReset => exact .inl hi

theorem CallStep.holds {alive : SessionId → Bool} {c : Call G W} {e' : Exec G W} {m m' : Mem G W}
    (h : CallStep alive c m m' e') {i : SessionId} (hi : e'.holds i = true) :
    alive i = true ∨ m.session = some i ∨ i = m.nextSession ∧ c.follows = true := by
  cases h with
  | follow hws => exact .inr (.inr ⟨(beq_iff_eq.mp hi).symm, Call.follows_of_ne_nil hws⟩)
  | followOver hws hs =>
      rcases Bool.or_eq_true_iff.mp hi with hi | hi
      · exact .inr (.inr ⟨(beq_iff_eq.mp hi).symm, Call.follows_of_ne_nil hws⟩)
      · exact .inr (.inl (beq_iff_eq.mp hi ▸ hs))
  | stop hl | cancelNavigation hl =>
      exact .inl (beq_iff_eq.mp hi ▸ (Mem.lock_eq_some.mp hl).2)
  | dock h | undock _ _ _ _ h => exact .inl ((h.holds hi).resolve_left nofun)
  | followEmpty | stopNone | noDock | undockReturns | cancelNone => cases hi

theorem UpdateThread.holds_step {u : UpdateThread} {m : Mem G W} {i : SessionId}
    (hi : (u.step m).2.holds i = true) : u.holds i = true ∨ m.session = some i := by
  cases u with
  | idle | drain | recovery =>
      simp only [UpdateThread.step] at hi
      split at hi
      · rename_i hs
        exact .inr (beq_iff_eq.mp hi ▸ hs)
      · cases hi
  | drainCheck | drainTake =>
      simp only [UpdateThread.step] at hi
      split at hi
      all_goals first | exact .inl hi | cases hi
  | takeFailure =>
      simp only [UpdateThread.step] at hi
      split at hi <;> cases hi
  | lanes | drainForward | replan | blocked => cases hi

theorem StatusThread.holds_step [DecidableEq G] {alive : SessionId → Bool} {t : StatusThread G}
    {m : Mem G W} {i : SessionId} (hi : (t.step alive m).2.holds i = true) :
    t.holds i = true ∨ alive i = true := by
  cases t with
  | lock entries =>
      simp only [StatusThread.step] at hi
      split at hi
      · rename_i hl
        exact .inr (beq_iff_eq.mp hi ▸ (Mem.lock_eq_some.mp hl).2)
      · cases hi
  | process s entries =>
      simp only [StatusThread.step] at hi
      repeat' split at hi
      all_goals first | exact .inl hi | cases hi
  | fire s f =>
      simp only [StatusThread.step] at hi
      split at hi
      · exact .inl hi
      · cases hi
  | done => cases hi

theorem FeedbackThread.holds_step [DecidableEq G] {alive : SessionId → Bool} {t : FeedbackThread G}
    {m : Mem G W} {i : SessionId} (hi : (t.step alive m).2.holds i = true) :
    t.holds i = true ∨ alive i = true := by
  cases t with
  | idle => cases hi
  | lock n msg =>
      simp only [FeedbackThread.step] at hi
      split at hi
      · rename_i hl
        exact .inr (beq_iff_eq.mp hi ▸ (Mem.lock_eq_some.mp hl).2)
      · cases hi
  | check s n msg =>
      simp only [FeedbackThread.step] at hi
      split at hi
      · cases hi
      · exact .inl hi
  | snapshot s n msg | store s p n msg =>
      simp only [FeedbackThread.step] at hi
      split at hi
      · exact .inl hi
      · cases hi
  | estimate s p n msg =>
      simp only [FeedbackThread.step] at hi
      split at hi
      · rename_i hp
        rcases Bool.or_eq_true_iff.mp hi with hi | hi
        · exact .inl hi
        · exact .inr (beq_iff_eq.mp hi ▸ (Bool.and_eq_true_iff.mp hp).1)
      · cases hi
  | index s p n msg => exact .inl hi
  | buffer s p n msg => cases hi

/-- The owners of a session. -/
theorem State.alive_iff {s : State G W} {i : SessionId} :
    s.alive i = true ↔ s.mem.session = some i ∨ s.exec.holds i = true ∨ s.update.holds i = true ∨
      (∃ t ∈ s.status, t.holds i = true) ∨ s.feedback.holds i = true := by
  simp [State.alive, or_assoc]

/-- **A session comes alive only when it is made.** -/
theorem Moves.alive [DecidableEq G] {s s' : State G W} {a : Action G W} (h : Moves s a s')
    {i : SessionId} (halive : s'.alive i = true) :
    s.alive i = true ∨ i = s.mem.nextSession ∧ ∃ c, a = .call c ∧ c.follows = true := by
  have old (ho : s.mem.session = some i ∨ s.exec.holds i = true ∨ s.update.holds i = true ∨
      (∃ t ∈ s.status, t.holds i = true) ∨ s.feedback.holds i = true) :
      s.alive i = true ∨ i = s.mem.nextSession ∧ ∃ c, a = .call c ∧ c.follows = true :=
    .inl (State.alive_iff.mpr ho)
  rcases State.alive_iff.mp halive with hi | hi | hi | ⟨t, ht, hi⟩ | hi
  · rcases h.session with (e | e) | ⟨c, rfl, hc⟩
    · exact old (.inl (e ▸ hi))
    · rw [e] at hi; cases hi
    · cases h with
      | call _ idle fresh =>
          rcases (callStep s.alive c s.mem).session with ⟨hn, -⟩ | ⟨-, e⟩
          · rw [hc] at hn; cases hn
          · exact .inr ⟨Option.some.inj (hi.symm.trans e), c, rfl, hc⟩
  · cases h with
    | call c idle fresh =>
        rcases (callStep s.alive c s.mem).holds hi with hi | hi | ⟨hi, hc⟩
        · exact .inl hi
        · exact old (.inl hi)
        · exact .inr ⟨hi, c, rfl, hc⟩
    | exec busy =>
        rcases (execStep s.alive busy s.mem).holds hi with hi | hi | hi
        · exact old (.inr (.inl hi))
        · exact .inl hi
        · exact old (.inl hi)
    | _ => exact old (.inr (.inl hi))
  · cases h with
    | update =>
        rcases UpdateThread.holds_step hi with hi | hi
        · exact old (.inr (.inr (.inl hi)))
        · exact old (.inl hi)
    | _ => exact old (.inr (.inr (.inl hi)))
  · cases h with
    | recvStatus entries =>
        rcases List.mem_append.mp ht with ht | ht
        · exact old (.inr (.inr (.inr (.inl ⟨t, ht, hi⟩))))
        · rw [List.mem_singleton.mp ht] at hi; cases hi
    | status k u at_k =>
        rcases List.mem_or_eq_of_mem_set ht with ht | rfl
        · exact old (.inr (.inr (.inr (.inl ⟨t, ht, hi⟩))))
        · rcases StatusThread.holds_step hi with hi | hi
          · exact old (.inr (.inr (.inr (.inl ⟨u, List.mem_of_getElem? at_k, hi⟩))))
          · exact .inl hi
    | _ => exact old (.inr (.inr (.inr (.inl ⟨t, ht, hi⟩))))
  · cases h with
    | recvFeedback msg idle => cases hi
    | feedback =>
        rcases FeedbackThread.holds_step hi with hi | hi
        · exact old (.inr (.inr (.inr (.inr hi))))
        · exact .inl hi
    | _ => exact old (.inr (.inr (.inr (.inr hi))))

end EgbFleet
