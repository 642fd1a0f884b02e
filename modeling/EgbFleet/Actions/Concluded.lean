import EgbFleet.Actions.Polling
import EgbFleet.Support.Logs

/-!
# Actions — what concludes an execution

`update_current_action` copies `current_action_`, calls `update_action` outside the lock, and then
concludes and clears whatever pair is stored by then.  If `execute_action` stores a pair only where
none is stored (`Vacant`), then the pair it concludes is the one it has copied: an execution is
concluded because its own action ended, and once, and a pair is not discarded before its action
has ended (`concluded_by_own_action`).
-/

namespace EgbFleet.Actions

/-- `e` was concluded. -/
def Event.concludes (e : ActivityId) : Event → Bool
  | .concluded e' _ => e' = e
  | .stored _ | .returned _ _ => false

/-- What the last call of `update_action` returned, and of which action. -/
def lastReturned : List Event → Option (ActivityId × RobotActionState)
  | [] => none
  | .returned e st :: _ => some (e, st)
  | .stored _ :: h | .concluded _ _ :: h => lastReturned h

/-- An execution is concluded when its own action has just returned the state for it. -/
def OwnAction : Event → List Event → Prop
  | .concluded e c, h => ∃ st, lastReturned h = some (e, st) ∧ st.conclusion? = some c
  | .stored _, _ | .returned _ _, _ => True

/-- The action of `e` has returned `COMPLETED`, `CANCELED` or `FAILED`. -/
def Ended (h : List Event) (e : ActivityId) : Prop :=
  ∃ st, .returned e st ∈ h ∧ st.conclusion? ≠ none

theorem Ended.mono {h h' : List Event} (hs : h ⊆ h') {e : ActivityId} (he : Ended h e) :
    Ended h' e :=
  let ⟨st, hst, hc⟩ := he
  ⟨st, hs hst, hc⟩

/-- The pair of `e` is stored. -/
def State.Holds (s : State) (e : ActivityId) : Prop :=
  s.currentAction = some e ∧ s.currentActionExecution = some e

/-- `execute_action` stores a pair only where none is stored. -/
def Vacant (s : State) : Step → Prop
  | .executeAction created => created = true → s.currentAction = none
  | .updateCurrentAction | .updateAction _ | .conclude => True

instance (s : State) : ∀ a, Decidable (Vacant s a)
  | .executeAction created => inferInstanceAs (Decidable (created = true → s.currentAction = none))
  | .updateCurrentAction | .updateAction _ | .conclude => inferInstanceAs (Decidable True)

/-! ### The invariant -/

/-- The action `update_current_action` holds. -/
def Timer.action? : Timer → Option ActivityId
  | .idle => none
  | .calling a | .concluding a _ => some a

/-- The timer works for the pair that is stored. -/
structure PollInv (s : State) : Prop where
  paired : s.currentActionExecution = s.currentAction
  current : ∀ a, s.timer.action? = some a → s.currentAction = some a
  ended : ∀ a c, s.timer = .concluding a c →
    ∃ st, lastReturned s.log = some (a, st) ∧ st.conclusion? = some c ∧ .returned a st ∈ s.log
  lt : ∀ e, s.currentAction = some e → e < s.nextActivity
  past : ∀ e c, .concluded e c ∈ s.log → e < s.nextActivity ∧ s.currentAction ≠ some e
  once : ∀ e, s.log.countP (Event.concludes e) ≤ 1
  kept : ∀ e, .stored e ∈ s.log → s.currentAction = some e ∨ Ended s.log e
  own : Log.Justified OwnAction s.log

theorem countP_concludes_eq_zero {h : List Event} {e : ActivityId}
    (hn : ∀ c, .concluded e c ∉ h) : h.countP (Event.concludes e) = 0 := by
  refine List.countP_eq_zero.mpr fun x hx => ?_
  cases x with
  | stored _ | returned _ _ => exact Bool.false_ne_true
  | concluded e' c =>
      intro he
      obtain rfl : e' = e := of_decide_eq_true he
      exact hn c hx

theorem PollInv.init : PollInv polling.init where
  paired := rfl
  current := nofun
  ended := nofun
  lt := nofun
  past := nofun
  once := fun _ => Nat.zero_le 1
  kept := nofun
  own := trivial

/-- An `execute_action` call that stores nothing. -/
theorem PollInv.dropped {s : State} (hs : PollInv s) :
    PollInv { s with nextActivity := s.nextActivity + 1 } where
  paired := hs.paired
  current := hs.current
  ended := hs.ended
  lt := fun e he => (hs.lt e he).trans (Nat.lt_succ_self _)
  past := fun e c he => ⟨(hs.past e c he).1.trans (Nat.lt_succ_self _), (hs.past e c he).2⟩
  once := hs.once
  kept := hs.kept
  own := hs.own

/-- A pair is stored while the timer is idle. -/
theorem PollInv.store {s : State} (hs : PollInv s) (hv : s.currentAction = none) :
    PollInv ({ s with nextActivity := s.nextActivity + 1 }.store s.nextActivity) := by
  have hidle : s.timer.action? = none := by
    refine Option.eq_none_iff_forall_ne_some.mpr fun a ha => ?_
    rw [hs.current a ha] at hv
    cases hv
  constructor
  case paired => rfl
  case current => exact fun a ha => by rw [State.store, hidle] at ha; cases ha
  case ended => exact fun a c hc => by rw [State.store] at hc; rw [hc] at hidle; cases hidle
  case lt => rintro _ ⟨⟩; exact Nat.lt_succ_self _
  case past =>
    intro e c he
    have hlt := (hs.past e c ((List.mem_cons.mp he).resolve_left nofun)).1
    exact ⟨hlt.trans (Nat.lt_succ_self _), fun h => hlt.ne' (Option.some.inj h)⟩
  case once => exact hs.once
  case kept =>
    intro e he
    rcases List.mem_cons.mp he with he | he
    · cases he; exact .inl rfl
    · rcases hs.kept e he with h | h
      · rw [hv] at h; cases h
      · exact .inr (h.mono (List.subset_cons_self _ _))
  case own => exact ⟨trivial, hs.own⟩

/-- `update_action` returns. -/
theorem PollInv.returned {s : State} (hs : PollInv s) {a : ActivityId}
    (ha : s.timer = .calling a) (st : RobotActionState) :
    PollInv { s with timer := .after a st, log := .returned a st :: s.log } where
  paired := hs.paired
  current := fun b hb => by
    have hb : b = a := by
      unfold Timer.after at hb
      split at hb
      · exact (Option.some.inj hb).symm
      · cases hb
    rw [hb]
    exact hs.current a (by rw [ha]; rfl)
  ended := fun b c hb => by
    unfold Timer.after at hb
    split at hb
    · rename_i c' hc
      cases hb
      exact ⟨st, rfl, hc, List.mem_cons_self⟩
    · cases hb
  lt := hs.lt
  past := fun e c he => hs.past e c ((List.mem_cons.mp he).resolve_left nofun)
  once := hs.once
  kept := fun e he =>
    (hs.kept e ((List.mem_cons.mp he).resolve_left nofun)).imp_right
      (.mono (List.subset_cons_self _ _))
  own := ⟨trivial, hs.own⟩

/-- The timer takes another step without touching the pair. -/
theorem PollInv.setTimer {s : State} (hs : PollInv s) {t : Timer}
    (ht : ∀ a, t.action? = some a → s.currentAction = some a) (hc : ∀ a c, t ≠ .concluding a c) :
    PollInv { s with timer := t } :=
  { hs with current := ht, ended := fun a c h => absurd h (hc a c) }

/-- The pair concluded is the one whose action ended. -/
theorem PollInv.conclude {s : State} (hs : PollInv s) {a : ActivityId} {c : Conclusion}
    (hc : s.timer = .concluding a c) : PollInv { s.conclude c with timer := .idle } := by
  have hcur : s.currentAction = some a := hs.current a (by rw [hc]; rfl)
  have hexec : s.currentActionExecution = some a := hs.paired.trans hcur
  obtain ⟨st, hlast, hst, hmem⟩ := hs.ended a c hc
  have hlog : (s.conclude c).log = .concluded a c :: s.log := by rw [State.conclude, hexec]; rfl
  constructor
  case paired => rfl
  case current => exact nofun
  case ended => exact nofun
  case lt => exact nofun
  case past =>
    intro e c' he
    refine ⟨?_, nofun⟩
    simp only [hlog] at he
    rcases List.mem_cons.mp he with he | he
    · cases he; exact hs.lt a hcur
    · exact (hs.past e c' he).1
  case once =>
    intro e
    simp only [hlog, List.countP_cons]
    by_cases e_eq : a = e
    · subst e_eq
      rw [countP_concludes_eq_zero fun c' h => (hs.past a c' h).2 hcur]
      split <;> omega
    · simpa [Event.concludes, e_eq] using hs.once e
  case kept =>
    intro e he
    simp only [hlog] at he ⊢
    have hsub : s.log ⊆ .concluded a c :: s.log := List.subset_cons_self _ _
    rcases hs.kept e ((List.mem_cons.mp he).resolve_left nofun) with h | h
    · cases hcur.symm.trans h
      exact .inr ⟨st, hsub hmem, by rw [hst]; exact Option.some_ne_none c⟩
    · exact .inr (h.mono hsub)
  case own =>
    simp only [hlog]
    exact ⟨⟨st, hlast, hst⟩, hs.own⟩

theorem PollInv.step {s s' : State} {a : Step} (hs : PollInv s) (hP : Vacant s a)
    (h : Actions.step s a = some s') : PollInv s' := by
  cases step_moves h with
  | dropped => exact hs.dropped
  | stored => exact hs.store (hP rfl)
  | unset => exact hs
  | snapshot idle stored =>
      refine hs.setTimer (fun b hb => ?_) fun _ _ hb => by cases hb
      cases hb
      exact stored
  | @monitored a st calling hst =>
      simpa only [Timer.after, hst] using hs.returned calling st
  | @ended a st c calling hst =>
      simpa only [Timer.after, hst] using hs.returned calling st
  | raised => exact hs.setTimer (fun _ hb => by cases hb) fun _ _ hb => by cases hb
  | concluded concluding => exact hs.conclude concluding

/-! ### Every run -/

/-- **Concluded by its own action.**  In runs whose pairs are stored only where none is stored,
`finished()` or `error()` is called on an execution only because its own action returned the
state for it, and at most once; and a pair that was stored is stored, or its action has ended. -/
theorem concluded_by_own_action {s : State} (h : polling.Reach Vacant s) :
    Log.Justified OwnAction s.log ∧ (∀ e, s.log.countP (Event.concludes e) ≤ 1) ∧
      ∀ e, .stored e ∈ s.log → s.Holds e ∨ Ended s.log e := by
  have hs : PollInv s := h.invariant .init fun _ _ _ hP hstep hs => hs.step hP hstep
  refine ⟨hs.own, hs.once, fun e he => (hs.kept e he).imp_left fun hcur => ?_⟩
  exact ⟨hcur, hs.paired.trans hcur⟩

/-- An action is polled twice, and its execution finished. -/
theorem concluded_by_own_action_completion :
    ∃ s, polling.Run Vacant polling.init
        [.executeAction true, .updateCurrentAction, .updateAction (some .inProgress),
          .updateCurrentAction, .updateAction (some .completed), .conclude] s ∧
      s.log.head? = some (.concluded 0 .finished) ∧ Log.Justified OwnAction s.log ∧
      s.log.countP (Event.concludes 0) ≤ 1 := by
  obtain ⟨s, hs, hq⟩ := Lts.exists_run polling Vacant polling.init
    [.executeAction true, .updateCurrentAction, .updateAction (some .inProgress),
      .updateCurrentAction, .updateAction (some .completed), .conclude]
    (fun s => s.log.head? == some (.concluded 0 .finished)) (by decide)
  have h := concluded_by_own_action ⟨_, hs⟩
  exact ⟨s, hs, beq_iff_eq.mp hq, h.1, h.2.1 0⟩

/-- A second action is stored while the first one's `COMPLETED` is on its way: the second one's
execution is finished, and its pair discarded, before it was ever polled. -/
theorem concluded_by_other_action :
    ¬ ∀ s, polling.Reach (fun _ _ => True) s →
      Log.Justified OwnAction s.log ∧ (∀ e, s.log.countP (Event.concludes e) ≤ 1) ∧
        ∀ e, .stored e ∈ s.log → s.Holds e ∨ Ended s.log e := by
  intro h
  obtain ⟨s, hs, hq⟩ := Lts.exists_run polling (fun _ _ => True) polling.init
    [.executeAction true, .updateCurrentAction, .updateAction (some .completed),
      .executeAction true, .conclude]
    (fun s => s.log == [.concluded 1 .finished, .stored 1, .returned 0 .completed, .stored 0])
    (by decide)
  have hown := (h s ⟨_, hs⟩).1
  rw [beq_iff_eq.mp hq] at hown
  obtain ⟨st, hlast, -⟩ := hown.1
  cases hlast

end EgbFleet.Actions
